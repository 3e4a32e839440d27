import InferenceFleet.EventStream.Frame

/-!
# Decoding an event stream

A body arrives in pieces and ends, or breaks off. A `Decoder` yields the items one by one: it takes
the frames off its buffer and reads another piece only when no frame there is finished.
`decodeWhole` says what the items are from the bytes of the whole body alone.
-/

namespace InferenceFleet.EventStream

/-- How a body ends. -/
inductive BodyEnd where
  | clean
  /-- The transport fails. -/
  | broken (reason : String)
  deriving DecidableEq

/-- What ends a frame: two line feeds. -/
def blankLine : List UInt8 := [0x0A, 0x0A]

/-- The bytes before the first blank line and those after it. `before` are the bytes already passed,
latest first. -/
def splitFrom (before : List UInt8) : List UInt8 → Option (List UInt8 × List UInt8)
  | b :: c :: bytes =>
    if b = 0x0A ∧ c = 0x0A then some (before.reverse, bytes)
    else splitFrom (b :: before) (c :: bytes)
  | _ => none

/-- The first finished frame, and what follows the blank line that ends it. -/
def popFrame? (buffer : List UInt8) : Option (List UInt8 × List UInt8) := splitFrom [] buffer

theorem splitFrom_length {before bytes frame rest : List UInt8}
    (h : splitFrom before bytes = some (frame, rest)) : rest.length < bytes.length := by
  fun_induction splitFrom before bytes with
  | case1 before b c bytes hb =>
    simp only [Option.some.injEq, Prod.mk.injEq] at h
    simp only [← h.2, List.length_cons]
    omega
  | case2 before b c bytes hb ih =>
    have := ih h
    simp only [List.length_cons] at this ⊢
    omega
  | case3 => simp at h

/-- Whether a frame ends the stream. -/
def Frame.isDone : Frame → Bool
  | .done => true
  | _ => false

def Frame.item? : Frame → Option Item
  | .item i => some i
  | _ => none

@[simp] theorem Frame.isDone_item (i : Item) : (Frame.item i).isDone = false := rfl

@[simp] theorem Frame.isDone_done : Frame.done.isDone = true := rfl

@[simp] theorem Frame.isDone_nothing : Frame.nothing.isDone = false := rfl

@[simp] theorem Frame.item?_item (i : Item) : (Frame.item i).item? = some i := rfl

@[simp] theorem Frame.item?_done : Frame.done.item? = none := rfl

@[simp] theorem Frame.item?_nothing : Frame.nothing.item? = none := rfl

structure Decoder where
  /-- The pieces that have not been read. -/
  pieces : List (List UInt8)
  ending : BodyEnd
  /-- The bytes read and not taken off as frames. -/
  buffer : List UInt8 := []
  /-- The body is over and what it left has been yielded. -/
  finished : Bool := false

namespace Decoder

/-- Bounds the steps that are left. -/
def size (d : Decoder) : Nat :=
  d.buffer.length + d.pieces.flatten.length + d.pieces.length + if d.finished then 0 else 1

/-- The next item, and the decoder after it. -/
def next? (d : Decoder) : Option (Item × Decoder) :=
  if d.finished then none
  else
    match _h : popFrame? d.buffer with
    | some (frame, buffer) =>
      match Frame.ofBytes frame with
      | .item i => some (i, { d with buffer })
      | .done => none
      | .nothing => next? { d with buffer }
    | none =>
      match _hp : d.pieces with
      | piece :: pieces => next? { d with buffer := d.buffer ++ piece, pieces }
      | [] =>
        match d.ending with
        | .broken reason => some (.error (.stream reason), { d with finished := true })
        | .clean =>
          match Frame.ofBytes d.buffer with
          | .item i => some (i, { d with buffer := [], finished := true })
          | _ => none
termination_by d.size
decreasing_by
  · have := splitFrom_length _h
    simp only [size]
    omega
  · simp only [size, _hp, List.flatten_cons, List.length_cons, List.length_append]
    omega

theorem size_next {d d' : Decoder} {i : Item} (h : d.next? = some (i, d')) : d'.size < d.size := by
  fun_induction next? d with
  | case1 => simp at h
  | case2 d hf frame buffer hb j hj =>
    have := splitFrom_length hb
    simp only [Option.some.injEq, Prod.mk.injEq] at h
    simp only [← h.2, size]
    omega
  | case3 => simp at h
  | case4 d hf frame buffer hb hj ih =>
    have := splitFrom_length hb
    have := ih h
    simp only [size] at this ⊢
    omega
  | case5 d hf hb piece pieces hp ih =>
    have := ih h
    simp only [size, hp, List.flatten_cons, List.length_cons, List.length_append] at this ⊢
    omega
  | case6 d hf hb hp reason he =>
    simp only [Option.some.injEq, Prod.mk.injEq] at h
    simp only [← h.2, size, hf, if_true, if_false, Bool.false_eq_true]
    omega
  | case7 d hf hb hp he j hj =>
    simp only [Option.some.injEq, Prod.mk.injEq] at h
    simp only [← h.2, size, hf, List.length_nil, if_true, if_false, Bool.false_eq_true]
    omega
  | case8 => simp at h

/-- All items that are still to come. -/
def items (d : Decoder) : List Item :=
  match _h : d.next? with
  | none => []
  | some (i, d) => i :: d.items
termination_by d.size
decreasing_by exact size_next _h

end Decoder

/-- The items of a body that arrives in `pieces`. -/
def decode (pieces : List (List UInt8)) (ending : BodyEnd) : List Item :=
  ({ pieces, ending } : Decoder).items

/-- Cuts at each blank line: the finished frames and the rest. `frame` is the current one, latest
byte first. -/
def cutFrom (frame : List UInt8) : List UInt8 → List (List UInt8) × List UInt8
  | [] => ([], frame.reverse)
  | [b] => ([], (b :: frame).reverse)
  | b :: c :: bytes =>
    if b = 0x0A ∧ c = 0x0A then
      let (frames, rest) := cutFrom [] bytes
      (frame.reverse :: frames, rest)
    else cutFrom (b :: frame) (c :: bytes)

def cut (bytes : List UInt8) : List (List UInt8) × List UInt8 := cutFrom [] bytes

/-- What is left when a body ends: a last frame without a blank line after it, or the failure of
the transport. -/
def lastItems (rest : List UInt8) : BodyEnd → List Item
  | .broken reason => [.error (.stream reason)]
  | .clean => (Frame.ofBytes rest).item?.toList

/-- The items of a body, from all its bytes at once: those of its frames up to the end mark, and
without an end mark what the end of the body leaves. -/
def decodeWhole (bytes : List UInt8) (ending : BodyEnd) : List Item :=
  let (frames, rest) := cut bytes
  let read := frames.map Frame.ofBytes
  let found := (read.takeWhile fun f => !f.isDone).filterMap Frame.item?
  if read.any Frame.isDone then found else found ++ lastItems rest ending

end InferenceFleet.EventStream
