import InferenceFleet.Json.Printer
import InferenceFleet.Json.Scanner
import InferenceFleet.Keyed
import InferenceFleet.Time.Reader

/-!
# Shapes of JSON values

A `Shape α` says how values of the type `α` look in JSON. `Shape.read` reads a value from a document
and reports the first fault in the order of the text; `Shape.toDoc` writes one. A record is read
from an object, in any order of its members and with unknown ones passed over, or from a list with
the fields in their order.
-/

namespace InferenceFleet.Json

/-- An integer type as JSON sees it: its name in messages and its range. -/
structure IntegerKind (α : Type) where
  name : String
  ofInt? : Int → Option α
  toInt : α → Int
  ofInt?_toInt : ∀ a, ofInt? (toInt a) = some a

namespace IntegerKind

def u16 : IntegerKind UInt16 where
  name := "u16"
  ofInt? n := if 0 ≤ n ∧ n < 2 ^ 16 then some (UInt16.ofNat n.toNat) else none
  toInt a := a.toNat
  ofInt?_toInt a := by
    have hlt := a.toNat_lt
    have hrange : 0 ≤ (a.toNat : Int) ∧ (a.toNat : Int) < 2 ^ 16 := by omega
    rw [if_pos hrange, Int.toNat_natCast, UInt16.ofNat_toNat]

def u32 : IntegerKind UInt32 where
  name := "u32"
  ofInt? n := if 0 ≤ n ∧ n < 2 ^ 32 then some (UInt32.ofNat n.toNat) else none
  toInt a := a.toNat
  ofInt?_toInt a := by
    have hlt := a.toNat_lt
    have hrange : 0 ≤ (a.toNat : Int) ∧ (a.toNat : Int) < 2 ^ 32 := by omega
    rw [if_pos hrange, Int.toNat_natCast, UInt32.ofNat_toNat]

def u64 : IntegerKind UInt64 where
  name := "u64"
  ofInt? n := if 0 ≤ n ∧ n < 2 ^ 64 then some (UInt64.ofNat n.toNat) else none
  toInt a := a.toNat
  ofInt?_toInt a := by
    have hlt := a.toNat_lt
    have hrange : 0 ≤ (a.toNat : Int) ∧ (a.toNat : Int) < 2 ^ 64 := by omega
    rw [if_pos hrange, Int.toNat_natCast, UInt64.ofNat_toNat]

/-- Counts of things in memory. -/
def size : IntegerKind UInt64 := { u64 with name := "usize" }

def i64 : IntegerKind Int64 where
  name := "i64"
  ofInt? n := if -2 ^ 63 ≤ n ∧ n < 2 ^ 63 then some (Int64.ofInt n) else none
  toInt a := a.toInt
  ofInt?_toInt a := by
    have := a.le_toInt
    have := a.toInt_lt
    simp
    omega

end IntegerKind

/-- A floating-point type as JSON sees it. -/
structure RealKind (f : Format) where
  name : String
  layout : Layout

namespace RealKind

def f32 : RealKind .single := { name := "f32", layout := .single }

def f64 : RealKind .double := { name := "f64", layout := .double }

end RealKind

mutual

inductive Shape : Type → Type 1 where
  | text : Shape String
  | flag : Shape Bool
  | integer {α : Type} (kind : IntegerKind α) : Shape α
  | real {f : Format} (kind : RealKind f) : Shape (Binary f)
  | instant : Shape Instant
  /-- One of several names, each standing for a value. -/
  | choice {α : Type} (names : List String) (ofName? : String → Option α) (toName : α → String) :
    Shape α
  /-- A value or `null`. -/
  | optional {α : Type} (s : Shape α) : Shape (Option α)
  | list {α : Type} (s : Shape α) : Shape (List α)
  /-- Texts under arbitrary keys; the last of equal keys counts. -/
  | labels : Shape (Keyed String)
  | record {α β σ : Type} (name : String) (fields : Fields σ β) (build : β → α) (parts : α → β) :
    Shape α
  /-- A text or a list of texts. -/
  | textOrTexts {α : Type} (name : String) (one : String → α) (many : List String → α)
    (toSum : α → String ⊕ List String) : Shape α

/-- The fields of a record in their order: `β` holds their values, `σ` the values found so far. -/
inductive Fields : Type → Type → Type 1 where
  | nil : Fields Unit Unit
  /-- A field, what it is when absent if it may be, and which values are left out in writing. -/
  | cons {α β σ : Type} (name : String) (shape : Shape α) (absent : Option α) (leftOut : α → Bool)
    (rest : Fields σ β) : Fields (Option α × σ) (α × β)

end

namespace Fields

/-- A field that must be there. -/
def required {α β σ : Type} (name : String) (shape : Shape α) (rest : Fields σ β) :
    Fields (Option α × σ) (α × β) :=
  .cons name shape none (fun _ => false) rest

/-- A field with a default. -/
def defaulted {α β σ : Type} (name : String) (shape : Shape α) (value : α) (rest : Fields σ β) :
    Fields (Option α × σ) (α × β) :=
  .cons name shape (some value) (fun _ => false) rest

/-- A field that may be absent and is written as `null` then. -/
def nullable {α β σ : Type} (name : String) (shape : Shape α) (rest : Fields σ β) :
    Fields (Option (Option α) × σ) (Option α × β) :=
  .cons name (.optional shape) (some none) (fun _ => false) rest

/-- A field that may be absent and is not written then. -/
def omissible {α β σ : Type} (name : String) (shape : Shape α) (rest : Fields σ β) :
    Fields (Option (Option α) × σ) (Option α × β) :=
  .cons name (.optional shape) (some none) Option.isNone rest

def size : {σ β : Type} → Fields σ β → Nat
  | _, _, .nil => 0
  | _, _, .cons _ _ _ _ rest => rest.size + 1

def empty : {σ β : Type} → Fields σ β → σ
  | _, _, .nil => ()
  | _, _, .cons _ _ _ _ rest => (none, rest.empty)

/-- The values of an object's fields once all its members are read. -/
def finish : {σ β : Type} → Fields σ β → σ → Except Fault β
  | _, _, .nil, _ => .ok ()
  | _, _, .cons name _ absent _ rest, (found, others) =>
    match found <|> absent with
    | some v => do return (v, ← rest.finish others)
    | none => .error (.missingField name)

end Fields

/-- Where a document comes from: a text, in which containers nest less than `depth` deep, or a
value that was read before. -/
inductive Origin where
  | text (depth : Nat)
  | value

namespace Origin

/-- How deep the containers of a text may nest, less one. -/
def depthLimit : Nat := 128

/-- Into a container. -/
def enter : Origin → Except Fault Origin
  | .text depth => if depth ≤ 1 then .error .tooDeep else .ok (.text (depth - 1))
  | .value => .ok .value

end Origin

def Quantity.found : Quantity → Found
  | .integer n => .integer n
  | .real x => .real x

def Numeral.quantity (n : Numeral) : Except Fault Quantity :=
  match n.quantity? with
  | some q => .ok q
  | none => .error .numberOutOfRange

/-- The fault of a value that is not of the wanted kind: its own, if it cannot be read. -/
def Doc.mismatch (wanted : String) : Doc → Fault
  | .null => .wrongType .null wanted
  | .flag b => .wrongType (.flag b) wanted
  | .number n =>
    match n.quantity with
    | .ok q => .wrongType q.found wanted
    | .error f => f
  | .text (.ok s) => .wrongType (.text s) wanted
  | .text (.error f) => f
  | .list _ _ => .wrongType .sequence wanted
  | .object _ _ => .wrongType .map wanted
  | .keyless _ => .wrongType .map wanted
  | .broken _ reading _ => reading

/-- Raises the fault, if there is one. -/
def raise? (fault : Option Fault) : Except Fault Unit :=
  match fault with
  | none => .ok ()
  | some f => .error f

/-- What follows the elements that a record takes from a list, of which there were `count`. -/
def checkSurplus (origin : Origin) (count : Nat) (rest : List Doc) (ending : Ending) :
    Except Fault Unit :=
  match origin, rest with
  | .value, [] => .ok ()
  | .value, _ :: _ => .error (.tooLong (count + rest.length))
  | .text _, .broken _ .trailingComma _ :: _ => .error .trailingComma
  | .text _, _ :: _ => .error .trailingCharacters
  | .text _, [] =>
    match ending with
    | .stray => .error .trailingCharacters
    | e => raise? e.listFault?

/-- Whether a value of any kind can be read: its first fault. `depth` bounds the containers. -/
def Doc.check (origin : Origin) (depth : Nat) (d : Doc) : Except Fault Unit :=
  match d with
  | .number n => n.quantity.map fun _ => ()
  | .text s => s.map fun _ => ()
  | .list items ending => do
    let inner ← origin.enter
    match depth with
    | 0 => .error .tooDeep
    | depth + 1 =>
      items.forM (check inner depth)
      raise? ending.listFault?
  | .object members ending => do
    let inner ← origin.enter
    match depth with
    | 0 => .error .tooDeep
    | depth + 1 =>
      members.forM fun m => do
        let _ ← m.1
        check inner depth m.2
      raise? ending.objectFault?
  | .keyless _ => do
    let _ ← origin.enter
    .error .keyNotString
  | .broken _ reading _ => .error reading
  | _ => .ok ()
termination_by structural depth

/-- The integer that a document spells. -/
def Doc.readInteger {α : Type} (kind : IntegerKind α) (d : Doc) : Except Fault α :=
  match d with
  | .number n => do
    match ← n.quantity with
    | .integer i =>
      match kind.ofInt? i with
      | some a => .ok a
      | none => .error (.wrongValue (.integer i) kind.name)
    | .real x => .error (.wrongType (.real x) kind.name)
  | d => .error (d.mismatch kind.name)

/-- The floating-point number that a document spells. -/
def Doc.readReal {f : Format} (kind : RealKind f) (d : Doc) : Except Fault (Binary f) :=
  match d with
  | .number n => do
    match ← n.quantity with
    | .integer i => .ok (.ofInt f i)
    | .real x => .ok (x.convert f)
  | d => .error (d.mismatch kind.name)

def Doc.readText (wanted : String) (d : Doc) : Except Fault String :=
  match d with
  | .text s => s
  | d => .error (d.mismatch wanted)

/-- The value that a name stands for, or the fault of an unknown one. -/
def nameValue {α : Type} (names : List String) (ofName? : String → Option α) (name : String) :
    Except Fault α :=
  match ofName? name with
  | some a => .ok a
  | none => .error (.unknownVariant name names)

/-- A name as a text, or as the only key of an object, with the value `null`. -/
def Doc.readChoice {α : Type} (origin : Origin) (names : List String)
    (ofName? : String → Option α) (d : Doc) : Except Fault α :=
  match d with
  | .text s => do nameValue names ofName? (← s)
  | .object members ending => do
    let _ ← origin.enter
    match members with
    | [] =>
      match ending with
      | .eof => .error .eofInValue
      | _ => .error .valueExpected
    | (key, d) :: others =>
      let value ← nameValue names ofName? (← key)
      match d with
      | .null =>
        match others, ending with
        | [], .closed => .ok value
        | [], .eof => .error .eofInObject
        | _, _ => .error .valueExpected
      | d => .error (d.mismatch "unit")
  | .keyless found => do
    let _ ← origin.enter
    .error (found.mismatch "variant identifier")
  | .broken .nothing reading _ => .error reading
  | .broken .quote reading _ => .error reading
  | _ => .error .valueExpected

/-- The members of an object with texts as values. -/
def Doc.readLabels (origin : Origin) (d : Doc) : Except Fault (Keyed String) :=
  match d with
  | .object members ending => do
    let _ ← origin.enter
    let found ← members.foldlM (fun (found : Keyed String) m => do
      let key ← m.1
      let value ← m.2.readText "a string"
      return found.insert key value) Keyed.empty
    raise? ending.objectFault?
    return found
  | .keyless _ => do
    let _ ← origin.enter
    .error .keyNotString
  | d => .error (d.mismatch "a map")

/-- The texts in a list of texts and nothing else. -/
def Doc.texts? : List Doc → Option (List String)
  | [] => some []
  | .text (.ok s) :: ds => (texts? ds).map (s :: ·)
  | _ :: _ => none

/-- The instant that a text names. -/
def Doc.readInstant (d : Doc) : Except Fault Instant := do
  match Instant.read (← d.readText "an RFC 3339 formatted date and time string") with
  | .ok t => .ok t
  | .error f => .error (.badTime f)

mutual

/-- The value of a document, or the first fault in it. -/
def Shape.read : {α : Type} → Shape α → Origin → Doc → Except Fault α
  | _, .text, _, d => d.readText "a string"
  | _, .flag, _, d =>
    match d with
    | .flag b => .ok b
    | d => .error (d.mismatch "a boolean")
  | _, .integer kind, _, d => d.readInteger kind
  | _, .real kind, _, d => d.readReal kind
  | _, .instant, _, d => d.readInstant
  | _, .choice names ofName? _, origin, d => d.readChoice origin names ofName?
  | _, .optional s, origin, d =>
    match d with
    | .null => .ok none
    | d => some <$> s.read origin d
  | _, .list s, origin, d =>
    match d with
    | .list items ending => do
      let inner ← origin.enter
      let values ← items.mapM fun d => s.read inner d
      raise? ending.listFault?
      return values
    | d => .error (d.mismatch "a sequence")
  | _, .labels, origin, d => d.readLabels origin
  | _, .record name fields build _, origin, d =>
    match d with
    | .list items ending => do
      let inner ← origin.enter
      let (values, rest) ← fields.readList inner name fields.size 0 items ending
      checkSurplus origin fields.size rest ending
      return build values
    | .object members ending => do
      let inner ← origin.enter
      let found ← members.foldlM (fun found m => do
        let key ← m.1
        fields.readMember inner found key m.2) fields.empty
      raise? ending.objectFault?
      return build (← fields.finish found)
    | .keyless _ => do
      let _ ← origin.enter
      .error .keyNotString
    | d => .error (d.mismatch ("struct " ++ name))
  | _, .textOrTexts name one many _, origin, d => do
    d.check origin Origin.depthLimit
    match d with
    | .text (.ok s) => return one s
    | .list items _ =>
      match Doc.texts? items with
      | some ss => return many ss
      | none => .error (.noVariant name)
    | _ => .error (.noVariant name)

/-- The fields of the record `record`, of which `count` are read, from the elements of a list, and
the elements left. -/
def Fields.readList : {σ β : Type} → Fields σ β → Origin → (record : String) → (size count : Nat) →
    List Doc → Ending → Except Fault (β × List Doc)
  | _, _, .nil, _, _, _, _, items, _ => .ok ((), items)
  | _, _, .cons _ shape absent _ rest, origin, record, size, count, items, ending => do
    match items with
    | d :: items =>
      let value ← shape.read origin d
      let (others, left) ← rest.readList origin record size (count + 1) items ending
      return ((value, others), left)
    | [] =>
      raise? ending.listFault?
      match absent with
      | some value =>
        let (others, left) ← rest.readList origin record size count [] ending
        return ((value, others), left)
      | none => .error (.tooShort count record size)

/-- The values found so far and the member `name` of an object. -/
def Fields.readMember : {σ β : Type} → Fields σ β → Origin → σ → String → Doc → Except Fault σ
  | _, _, .nil, _, _, _, d => raise? d.passing?
  | _, _, .cons own shape _ _ rest, origin, (found, others), name, d =>
    if own = name then
      match found with
      | some _ => .error (.duplicateField name)
      | none => do return (some (← shape.read origin d), others)
    else do return (found, ← rest.readMember origin others name d)

end

mutual

/-- The document of a value. -/
def Shape.toDoc : {α : Type} → Shape α → α → Doc
  | _, .text, s => .text (.ok s)
  | _, .flag, b => .flag b
  | _, .integer kind, a => .number (.ofInt (kind.toInt a))
  | _, .real kind, x =>
    match Numeral.ofBinary? kind.layout x with
    | some n => .number n
    | none => .null
  | _, .instant, t => .text (.ok t.print)
  | _, .choice _ _ toName, a => .text (.ok (toName a))
  | _, .optional s, a =>
    match a with
    | some a => s.toDoc a
    | none => .null
  | _, .list s, as => .list (as.map fun a => s.toDoc a) .closed
  | _, .labels, m =>
    .object (m.entries.map fun (key, value) => (.ok key, .text (.ok value))) .closed
  | _, .record _ fields _ parts, a => .object (fields.toMembers (parts a)) .closed
  | _, .textOrTexts _ _ _ toSum, a =>
    match toSum a with
    | .inl s => .text (.ok s)
    | .inr ss => .list (ss.map fun s => .text (.ok s)) .closed

def Fields.toMembers : {σ β : Type} → Fields σ β → β → List (Except Fault String × Doc)
  | _, _, .nil, _ => []
  | _, _, .cons name shape _ leftOut rest, (value, others) =>
    if leftOut value then rest.toMembers others
    else (.ok name, shape.toDoc value) :: rest.toMembers others

end

namespace Shape

variable {α : Type}

/-- Reads a scanned text, nothing but blanks following the value. -/
def readWhole (s : Shape α) (t : Text) : Except Fault α := do
  let value ← s.read (.text Origin.depthLimit) t.root
  if t.surplus then .error .trailingCharacters else .ok value

/-- Reads a value from the bytes of its JSON text. -/
def decode (s : Shape α) (bytes : List UInt8) : Except Fault α := s.readWhole (scan bytes)

/-- Reads a value from its JSON text. -/
def decodeText (s : Shape α) (text : String) : Except Fault α := s.readWhole (scanText text)

/-- The JSON text of a value. -/
def encode (s : Shape α) (a : α) : String := (s.toDoc a).print

end Shape

end InferenceFleet.Json
