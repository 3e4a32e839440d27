import InferenceFleet.Binary.Shortest
import InferenceFleet.Json.Fault
import InferenceFleet.Settings.Basic
import InferenceFleet.Settings.Value

/-!
# Reading settings

Settings are read from a tree of values leniently: a number may be given as a text or a truth
value, a text as any scalar. A section is a table, or a list of its settings in their order. The
first thing that fits nowhere is reported, with its key.
-/

namespace InferenceFleet

/-- Why settings cannot be used. -/
inductive SettingsFault where
  /-- The file is not in its format. -/
  | unreadableFile
  /-- The value under the key cannot be converted. -/
  | wrongType (key : String)
  /-- What is found is neither a table nor a list. -/
  | notSection (found : String) (wanted : String)
  | zeroInterval (key : String)
  deriving DecidableEq

namespace SettingsFault

/-- The text of a fault that does not come from a key or a format. -/
def message? : SettingsFault → Option String
  | .notSection found wanted => some ("invalid type: " ++ found ++ ", expected struct " ++ wanted)
  | .zeroInterval key => some (Settings.zeroMessage key)
  | .unreadableFile | .wrongType _ => none

end SettingsFault

namespace Settings

/-- A finite number in digits alone, with as few as say which it is. -/
def plainDigits (negative : Bool) (s : Scientific) : String :=
  let text (ds : List Digit) := String.ofList (ds.map Digit.toChar)
  let width := s.exponent.natAbs + 1
  (if negative then "-" else "") ++
    if s.exponent < 0 then "0." ++ text (List.replicate (s.exponent.natAbs - 1) 0 ++ s.digits)
    else
      let whole := s.digits.take width
      let rest := s.digits.drop width
      text (whole ++ List.replicate (width - whole.length) 0) ++
        if rest.isEmpty then "" else "." ++ text rest

def showReal : Double → String
  | .finite negative mantissa exponent => plainDigits negative (.shortest .double mantissa exponent)
  | .infinite negative => if negative then "-inf" else "inf"

/-- The nearest integer from zero up to `limit`, halves going away from zero. -/
def roundTo (limit : Nat) : Double → Nat
  | .finite negative mantissa exponent =>
    let (num, den) := Binary.magnitude mantissa exponent
    if negative then 0 else min ((2 * num + den) / (2 * den)) limit
  | .infinite negative => if negative then 0 else limit

/-- The greatest number of 64 bits. -/
def greatestWord : Nat := 2 ^ 64 - 1

namespace Value

/-- What a message calls the value. -/
def describe : Value → String
  | .null => "unit value"
  | .flag b => "boolean `" ++ (if b then "true" else "false") ++ "`"
  | .integer n => "integer `" ++ signedDecimal n ++ "`"
  | .real x =>
    let text := showReal x
    let pointed := x.isInfinite || text.contains '.'
    "floating point `" ++ (if pointed then text else text ++ ".0") ++ "`"
  | .notANumber => "floating point `NaN`"
  | .text s => "string " ++ Json.quotedForMessage s
  | .list _ => "sequence"
  | .table _ => "map"

/-- A scalar as text. -/
def text? : Value → Option String
  | .text s => some s
  | .flag b => some (if b then "true" else "false")
  | .integer n => some (signedDecimal n)
  | .real x => some (showReal x)
  | .notANumber => some "NaN"
  | .null | .list _ | .table _ => none

/-- The number that a text stands for, in digits or as a word for one or zero. -/
def wordOfText? (s : String) : Option Nat :=
  let word := String.ofList (s.toList.map Char.toLower)
  if ["true", "on", "yes"].contains word then some 1
  else if ["false", "off", "no"].contains word then some 0
  else
    let cs := match s.toList with
      | '+' :: cs => cs
      | cs => cs
    match cs.mapM Digit.ofChar? with
    | some (d :: ds) => some (Digit.value (d :: ds))
    | _ => none

/-- The number that a scalar stands for, if it is not greater than `limit`. -/
def count? (limit : Nat) (v : Value) : Option Nat :=
  (match v with
    | .integer n => if 0 ≤ n then some n.toNat else none
    | .flag b => some b.toNat
    | .real x => some (roundTo greatestWord x)
    | .notANumber => some 0
    | .text s => wordOfText? s
    | .null | .list _ | .table _ => none).filter (· ≤ limit)

end Value

/-- The settings of a section that are given, each with the end of its key: found by name, or by
place in a list. -/
abbrev Section := (name : String) → (place : Nat) → Option (String × Value)

namespace Section

def empty : Section := fun _ _ => none

/-- The section that a value holds. -/
def ofValue (kind : String) (v : Value) : Except SettingsFault Section :=
  match v with
  | .table ms => .ok fun name _ => (ms.lookup name).map fun v => ("." ++ name, v)
  | .list vs => .ok fun _ place => vs[place]?.map fun v => ("[" ++ decimal place ++ "]", v)
  | v => .error (.notSection v.describe kind)

variable (s : Section) (key : String)

/-- A setting converted, or `absent` if it is not given. -/
def get {α : Type} (name : String) (place : Nat) (absent : α) (convert? : Value → Option α) :
    Except SettingsFault α :=
  match s name place with
  | none => .ok absent
  | some (ending, v) =>
    match convert? v with
    | some a => .ok a
    | none => .error (.wrongType (key ++ ending))

def text (name : String) (place : Nat) (absent : String) : Except SettingsFault String :=
  s.get key name place absent Value.text?

def port (name : String) (place : Nat) (absent : UInt16) : Except SettingsFault UInt16 :=
  s.get key name place absent fun v => (v.count? (2 ^ 16 - 1)).map UInt16.ofNat

def word (name : String) (place : Nat) (absent : UInt64) : Except SettingsFault UInt64 :=
  s.get key name place absent fun v => (v.count? greatestWord).map UInt64.ofNat

/-- A text that may be absent or null. -/
def text? (name : String) (place : Nat) : Except SettingsFault (Option String) :=
  s.get key name place none fun
    | .null => some none
    | v => v.text?.map some

def listener : Except SettingsFault Listener := do
  return { host := ← s.text key "host" 0 "0.0.0.0", port := ← s.port key "port" 1 8080 }

def heartbeat : Except SettingsFault HeartbeatSettings := do
  return { timeoutSecs := ← s.word key "timeout_secs" 0 30
           sweepIntervalSecs := ← s.word key "sweep_interval_secs" 1 10 }

def processor : Except SettingsFault ProcessorSettings := do
  return { pollIntervalMs := ← s.word key "poll_interval_ms" 0 100
           maxConcurrentJobs := ← s.word key "max_concurrent_jobs" 1 64 }

def auth : Except SettingsFault AuthSettings := do
  return { apiKey := ← s.text? key "api_key" 0 }

def logging : Except SettingsFault LoggingSettings := do
  return { level := ← s.text key "level" 0 "info" }

end Section

/-- A section of the tree converted, or `absent` if it is not given. -/
def readSection {α : Type} (root : Value) (key kind : String) (absent : α)
    (convert : Section → String → Except SettingsFault α) : Except SettingsFault α :=
  match root.members.lookup key with
  | none => .ok absent
  | some v => do convert (← Section.ofValue kind v) key

/-- The settings in a tree of values. -/
def ofValue (root : Value) : Except SettingsFault Settings := do
  return {
    rpc := ← readSection root "rpc" "ListenConfig" .forControl Section.listener
    http := ← readSection root "http" "ListenConfig" {} Section.listener
    heartbeat := ← readSection root "heartbeat" "HeartbeatConfig" {} Section.heartbeat
    processor := ← readSection root "processor" "ProcessorConfig" {} Section.processor
    auth := ← readSection root "auth" "AuthConfig" {} Section.auth
    logging := ← readSection root "logging" "LoggingConfig" {} Section.logging }

end Settings

end InferenceFleet
