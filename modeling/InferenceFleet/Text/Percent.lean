import InferenceFleet.Text.Utf8

/-!
# Percent-encoding

A byte may be written as `%` and two hex digits; `%` before anything else stands for itself.
-/

namespace InferenceFleet.Percent

def hexValue? (b : UInt8) : Option UInt8 :=
  if 48 ≤ b ∧ b ≤ 57 then some (b - 48)
  else if 97 ≤ b ∧ b ≤ 102 then some (b - 87)
  else if 65 ≤ b ∧ b ≤ 70 then some (b - 55)
  else none

/-- The bytes that a text with percent-encoding stands for. -/
def decode : List UInt8 → List UInt8
  | 0x25 :: m :: n :: rest =>
    match hexValue? m, hexValue? n with
    | some high, some low => (high * 16 + low) :: decode rest
    | _, _ => 0x25 :: decode (m :: n :: rest)
  | b :: rest => b :: decode rest
  | [] => []

/-- The bytes of a text, decoded. -/
def decodeText (text : List Char) : List UInt8 := decode (Utf8.encode (String.ofList text))

end InferenceFleet.Percent
