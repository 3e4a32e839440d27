/-!
# UTF-8

`encode` writes a text as bytes. `pieces` reads bytes with a machine that takes one byte at a time:
each piece is a character, or `none` for a longest run of bytes that begins a character and does
not end one. `decode?` accepts the bytes whose pieces are all characters; `decodeLossy` puts U+FFFD
in the place of every other piece.
-/

namespace InferenceFleet.Utf8

def encode (text : String) : List UInt8 := text.toUTF8.data.toList

/-- A character whose first bytes have been read. -/
structure Partial where
  /-- How many bytes are still to come, less one. -/
  more : Nat
  value : Nat
  /-- The least byte that may come next. -/
  least : UInt8 := 0x80
  /-- The greatest byte that may come next. -/
  greatest : UInt8 := 0xBF

/-- What the bytes read so far amount to: the finished pieces, latest first, and the open one. -/
structure Reading where
  done : List (Option Char) := []
  pending : Option Partial := none

namespace Reading

/-- The byte `b` begins a character. The ranges of the second byte leave out surrogates, spellings
longer than needed and code points beyond U+10FFFF. -/
def start (done : List (Option Char)) (b : UInt8) : Reading :=
  let n := b.toNat
  if n < 0x80 then { done := some (Char.ofNat n) :: done }
  else if n < 0xC2 then { done := none :: done }
  else if n < 0xE0 then { done, pending := some { more := 0, value := n - 0xC0 } }
  else if n = 0xE0 then { done, pending := some { more := 1, value := 0, least := 0xA0 } }
  else if n = 0xED then { done, pending := some { more := 1, value := 0xD, greatest := 0x9F } }
  else if n < 0xF0 then { done, pending := some { more := 1, value := n - 0xE0 } }
  else if n = 0xF0 then { done, pending := some { more := 2, value := 0, least := 0x90 } }
  else if n < 0xF4 then { done, pending := some { more := 2, value := n - 0xF0 } }
  else if n = 0xF4 then { done, pending := some { more := 2, value := 4, greatest := 0x8F } }
  else { done := none :: done }

def feed (r : Reading) (b : UInt8) : Reading :=
  match r.pending with
  | none => start r.done b
  | some p =>
    if p.least ≤ b ∧ b ≤ p.greatest then
      let value := p.value * 64 + (b.toNat - 0x80)
      match p.more with
      | 0 => { done := some (Char.ofNat value) :: r.done }
      | more + 1 => { done := r.done, pending := some { more, value } }
    else start (none :: r.done) b

def finish (r : Reading) : List (Option Char) :=
  match r.pending with
  | none => r.done.reverse
  | some _ => (none :: r.done).reverse

end Reading

/-- The characters of `bytes` in order, with `none` for each stretch that is no character. -/
def pieces (bytes : List UInt8) : List (Option Char) :=
  (bytes.foldl Reading.feed {}).finish

def decode? (bytes : List UInt8) : Option String :=
  (pieces bytes).mapM id |>.map String.ofList

def decodeLossy (bytes : List UInt8) : String :=
  String.ofList ((pieces bytes).map (·.getD '\uFFFD'))

end InferenceFleet.Utf8
