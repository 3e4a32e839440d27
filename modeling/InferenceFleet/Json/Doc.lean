import InferenceFleet.Json.Fault

/-!
# JSON documents, whole and broken

A `Doc` is a JSON text as far as it can be understood. Where the text breaks off or goes wrong the
tree says so, in the place where a reader meets it: reading stops at the first fault it needs to
look at. Two kinds of reader differ in what they look at. One that wants the value checks all of
it; one that passes over the value only follows its brackets, its literals and the escapes of its
strings. A broken place therefore holds what each of them reports.
-/

namespace InferenceFleet.Json

/-- How the text of a list or an object ends after its last finished item. -/
inductive Ending where
  /-- The closing bracket is there. -/
  | closed
  /-- The text is over. -/
  | eof
  /-- Something stands there that is neither a comma nor the closing bracket. -/
  | stray
  /-- The last item is itself broken; `passing` stops a reader that passes over it. -/
  | inside (passing : Fault)
  deriving DecidableEq

/-- What the text of a broken value begins with. -/
inductive Opening where
  | nothing | literal | digit | quote
  deriving DecidableEq

inductive Doc where
  | null
  | flag (b : Bool)
  | number (n : Numeral)
  /-- A string with its closing quote, and its text unless that is faulty. -/
  | text (s : Except Fault String)
  | list (items : List Doc) (ending : Ending)
  /-- The keys may be faulty texts, like other strings. -/
  | object (members : List (Except Fault String × Doc)) (ending : Ending)
  /-- An object that begins with something else than a key. -/
  | keyless (found : Doc)
  /-- No value: what a reader of the value reports, and what one that passes over it does. -/
  | broken (opening : Opening) (reading passing : Fault)
  deriving Inhabited

/-- What a reader of a list reports at its end. -/
def Ending.listFault? : Ending → Option Fault
  | .closed => none
  | .eof => some .eofInList
  | .stray => some .commaOrBracketExpected
  | .inside f => some f

/-- What a reader of an object reports at its end. -/
def Ending.objectFault? : Ending → Option Fault
  | .closed => none
  | .eof => some .eofInObject
  | .stray => some .commaOrBraceExpected
  | .inside f => some f

/-- The fault that a reader passing over the value meets, if there is one. -/
def Doc.passing? : Doc → Option Fault
  | .broken _ _ f => some f
  | .keyless _ => some .keyNotString
  | .list _ ending => ending.listFault?
  | .object _ ending => ending.objectFault?
  | _ => none

/-- A whole text: its value, and whether anything but blanks follows. -/
structure Text where
  root : Doc
  surplus : Bool

end InferenceFleet.Json
