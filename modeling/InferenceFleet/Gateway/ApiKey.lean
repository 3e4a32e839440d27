import InferenceFleet.Failure
import InferenceFleet.Text.Blank

/-!
# The gateway's key

With a key configured, a client has to present it in the first of its `Authorization` headers: bare,
after `Bearer ` or after `sk-`.
-/

namespace InferenceFleet.Gateway

/-- The key that clients must present, if any; an empty one counts as none. -/
structure ApiKey where
  key? : Option String

namespace ApiKey

def ofSetting (setting : Option String) : ApiKey := { key? := setting.filter (!·.isEmpty) }

def isEnabled (k : ApiKey) : Bool := k.key?.isSome

/-- What may stand before the key. -/
def schemes : List String := ["", "Bearer ", "sk-"]

/-- A byte that a header value of plain text may hold: a printable ASCII character or a tab. -/
def isPlain (b : UInt8) : Bool := b == 0x09 || (0x20 ≤ b && b < 0x7F)

/-- The text of a header value, unless it holds other bytes. -/
def plainText? (value : List UInt8) : Option (List Char) :=
  if value.all isPlain then some (value.map fun b => Char.ofNat b.toNat) else none

/-- Whether a header with the text `value` presents `key`. -/
def presents (key : String) (value : List Char) : Bool :=
  schemes.any fun scheme => trimBlanks value == scheme.toList ++ key.toList

/-- Whether a request with these `Authorization` headers is let in. -/
def authenticate (k : ApiKey) (authorization : List (List UInt8)) : Except AuthFault Unit :=
  match k.key? with
  | none => .ok ()
  | some key =>
    match authorization with
    | [] => .error .missingHeader
    | value :: _ =>
      match plainText? value with
      | none => .error .invalidKey
      | some text => if presents key text then .ok () else .error .invalidKey

end ApiKey

end InferenceFleet.Gateway
