import InferenceFleet.Json.Scanner
import InferenceFleet.Json.Shape
import InferenceFleet.Settings.Path
import InferenceFleet.Settings.Reading
import InferenceFleet.Settings.Variables
import InferenceFleet.Toml.Document

/-!
# Sources of settings

Settings come from a file and from environment variables; a variable wins over the file and the file
over the values that hold otherwise. A file that is not there sets nothing.
-/

namespace InferenceFleet.Settings

/-- The formats of files. -/
inductive FileFormat where
  | toml
  | json
  deriving DecidableEq

namespace FileFormat

def all : List FileFormat := [.toml, .json]

/-- What the names of files of the format end with. -/
def ending : FileFormat → String
  | .toml => "toml"
  | .json => "json"

/-- The format of a file by the part of its name after the last point; a point at the very beginning
does not count. -/
def ofName? (name : String) : Option FileFormat :=
  let own := (name.toList.reverse.takeWhile (· != '/')).reverse
  let ending := (own.reverse.takeWhile (· != '.')).reverse
  if ending.length + 1 < own.length then all.find? fun f => f.ending == String.ofList ending
  else none

end FileFormat

mutual

/-- A JSON value that was read as the value of a setting. Of members with the same key the last
counts. -/
def Value.ofDoc : Json.Doc → Value
  | .null => .null
  | .flag b => .flag b
  | .number n =>
    match n.quantity? with
    | some (.integer i) => if i < 2 ^ 63 then .integer i else .real (.ofInt .double i)
    | some (.real x) => .real x
    | none => .null
  | .text (.ok s) => .text s
  | .list items _ => .list (itemValues items)
  | .object members _ => .table (memberValues members)
  | _ => .null
termination_by structural d => d

def itemValues : List Json.Doc → List Value
  | [] => []
  | d :: ds => Value.ofDoc d :: itemValues ds
termination_by structural ds => ds

def memberValues : List (Except Json.Fault String × Json.Doc) → List (String × Value)
  | [] => []
  | m :: ms =>
    let first := memberValue m
    let others := memberValues ms
    if others.any (·.1 == first.1) then others else first :: others
termination_by structural ms => ms

def memberValue : Except Json.Fault String × Json.Doc → String × Value
  | (.ok key, d) => (key, Value.ofDoc d)
  | (.error _, _) => ("", .null)
termination_by structural m => m

end

/-- The members of a JSON text that holds an object. -/
def readJson? (text : String) : Option (List (String × Value)) :=
  let t := Json.scanText text
  match t.root.check (.text Json.Origin.depthLimit) Json.Origin.depthLimit, t.surplus, t.root with
  | .ok (), false, .object members _ => some (memberValues members)
  | _, _, _ => none

/-- The settings in a file of the format. -/
def FileFormat.read? : FileFormat → String → Option (List (String × Value))
  | .toml => Toml.read?
  | .json => readJson?

abbrev Files := List (String × String)

/-- The file that a path names: itself if it is there, else the path with the ending of a format. -/
def findFile? (files : Files) (path : String) : Option (FileFormat × String) :=
  match files.lookup path with
  | some text => (FileFormat.ofName? path).map fun f => (f, text)
  | none => FileFormat.all.findSome? fun f =>
    (files.lookup (path ++ "." ++ f.ending)).map fun text => (f, text)

/-- The text without a mark of the byte order in front. -/
def withoutMark (text : String) : String :=
  match text.toList with
  | '\uFEFF' :: cs => String.ofList cs
  | _ => text

/-- The settings in the file that a path names. -/
def readFile (files : Files) (path : String) : Except SettingsFault (List (String × Value)) :=
  match findFile? files path with
  | none => .ok []
  | some (f, text) =>
    match f.read? (withoutMark text) with
    | some members => .ok members
    | none => .error .unreadableFile

/-- The listeners that hold unless they are set. -/
def presets : Value :=
  .table [("rpc", .table [("host", .text Listener.forControl.host),
      ("port", .integer Listener.forControl.port.toNat)]),
    ("http", .table [("host", .text ({} : Listener).host),
      ("port", .integer ({} : Listener).port.toNat)])]

/-- The tree of the settings of a file and of variables over the presets. -/
def merged (file environment : List (String × Value)) : Value :=
  let sources := (Value.table []).putAll file |>.putAll environment
  presets.putAll sources.members

/-- Settings that can be used. -/
def checked (s : Settings) : Except SettingsFault Settings :=
  match s.zeroInterval? with
  | some key => .error (.zeroInterval key)
  | none => .ok s

/-- The name of the file that is read unless another is given. -/
def defaultPath : String := "control-plane"

/-- Loads the settings from the file at `path` and from environment variables. -/
def load (files : Files) (path : String) (environment : List (String × String)) :
    Except SettingsFault Settings := do
  let file ← readFile files path
  checked (← ofValue (merged file (ofEnvironment environment)))

end InferenceFleet.Settings
