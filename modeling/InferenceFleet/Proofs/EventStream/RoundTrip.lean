import InferenceFleet.EventStream.Encoder
import InferenceFleet.Proofs.EventStream.Batch
import InferenceFleet.Proofs.Wire
import InferenceFleet.Relay

/-!
# An answer streamed is the answer received

The text of a chunk is one line, begins and ends with a brace, and is no error report, so its event
is a frame that carries the chunk (`ofData_chunk`). The event of a failure carries the text of the
failure. What a relay writes for an answer is therefore decoded into the chunks before the first
failure and that failure, as one that the other side reports.
-/

namespace InferenceFleet.EventStream

open Json

/-! ### The text of a frame -/

theorem linesFrom_of_not_mem {line cs : List Char} (h : '\n' ∉ cs) (hne : line.reverse ++ cs ≠ []) :
    linesFrom line cs = [line.reverse ++ cs] := by
  induction cs generalizing line with
  | nil =>
    rw [List.append_nil] at hne
    have hline : line ≠ [] := fun hnil => hne (by rw [hnil]; rfl)
    rw [linesFrom, List.append_nil, if_neg (by simpa using hline)]
  | cons c cs ih =>
    obtain ⟨hc, hcs⟩ := List.ne_and_not_mem_of_not_mem_cons h
    have happend : (c :: line).reverse ++ cs = line.reverse ++ c :: cs := by
      rw [List.reverse_cons, List.append_assoc]
      rfl
    rw [linesFrom, if_neg (Ne.symm hc), ih hcs (by rw [happend]; exact hne), happend]

/-- What a data line begins with, with the blank that is written behind it. -/
def dataStart : String := "data: "

/-- Data that stands on one line and has no blanks at its ends. -/
structure IsLine (data : String) : Prop where
  visible : Visible data
  trimmed : trimBlanks data.toList = data.toList

theorem IsLine.record {α β σ : Type} {name : String} {fields : Fields σ β} {build : β → α}
    {parts : α → β} {a : α} (h : (Shape.record name fields build parts).Writable a) :
    IsLine ((Shape.record name fields build parts).encode a) where
  visible := Visible.print (Shape.plain_toDoc _ a h)
  trimmed := by
    rw [Shape.encode, Shape.toDoc, Doc.print_object_toList]
    exact trimBlanks_eq rfl rfl (List.cons_append ..).symm

theorem IsLine.doneMark : IsLine doneMark := ⟨by decide, by decide⟩

theorem IsLine.chunk (c : Chunk) : IsLine (Chunk.shape.encode c) := .record c.writable

theorem IsLine.errorBody (b : ErrorBody) : IsLine (ErrorBody.shape.encode b) := .record b.writable

section IsLine
variable {data : String} (h : IsLine data)
include h

theorem IsLine.feed_not_mem : '\n' ∉ (dataStart ++ data).toList := by
  rw [String.toList_append]
  intro hmem
  rcases List.mem_append.1 hmem with hmem | hmem
  · revert hmem
    decide
  · have hle := h.visible _ hmem
    revert hle
    decide

theorem IsLine.frameData? : frameData? (dataStart ++ data).toList = some data := by
  have hlines : lines (dataStart ++ data).toList = [(dataStart ++ data).toList] :=
    linesFrom_of_not_mem h.feed_not_mem (by rw [String.toList_append]; nofun)
  have hline : lineData? (dataStart ++ data).toList = some data.toList := by
    rw [String.toList_append]
    rfl
  rw [EventStream.frameData?, hlines]
  simp only [List.filterMap_cons, List.filterMap_nil, hline]
  rw [List.intercalate_singleton, h.trimmed, String.ofList_toList]

/-- The frame of a line of data says what the data says. -/
theorem IsLine.ofBytes : Frame.ofBytes (Utf8.encode (dataStart ++ data)) = .ofData data := by
  rw [Frame.ofBytes, Utf8.decodeLossy_encode, Frame.parse, h.frameData?]

/-- The event of a line of data is one frame: the blank line behind it is the first. -/
theorem IsLine.popFrame? (rest : List UInt8) :
    popFrame? (Utf8.encode (event data) ++ rest) =
      some (Utf8.encode (dataStart ++ data), rest) := by
  have hevent : Utf8.encode (event data) = Utf8.encode (dataStart ++ data) ++ blankLine := by
    rw [event, Utf8.encode_append]
    rfl
  have hcount : (Utf8.encode (dataStart ++ data)).count 0x0A = 0 :=
    List.count_eq_zero.2 (Utf8.feed_not_mem_encode h.feed_not_mem)
  rw [EventStream.popFrame?, hevent, splitFrom_of_joined []]
  · rfl
  · -- A blank line takes two line feeds, and there is one.
    intro hinfix
    have hle := hinfix.sublist.count_le 0x0A
    rw [List.count_append, hcount] at hle
    revert hle
    decide

theorem decodeWhole_event (rest : List UInt8) (ending : BodyEnd) :
    decodeWhole (Utf8.encode (event data) ++ rest) ending =
      match Frame.ofData data with
      | .item i => i :: decodeWhole rest ending
      | .done => []
      | .nothing => decodeWhole rest ending := by
  have hwhole := decodeWhole_of_some ending (h.popFrame? rest)
  rw [h.ofBytes] at hwhole
  exact hwhole

end IsLine

/-! ### What the data says -/

theorem record_ne_doneMark {α β σ : Type} {name : String} {fields : Fields σ β} {build : β → α}
    {parts : α → β} {a : α} : (Shape.record name fields build parts).encode a ≠ doneMark := by
  intro heq
  have hhead : ((Shape.record name fields build parts).encode a).toList.head? = some '[' := by
    rw [heq]
    rfl
  rw [Shape.encode, Shape.toDoc, Doc.print_object_toList, List.head?_cons] at hhead
  revert hhead
  decide

/-- A chunk is read as itself: it is not the end mark and no error report. -/
theorem ofData_chunk (c : Chunk) : Frame.ofData (Chunk.shape.encode c) = .item (.ok c) := by
  have hmark : Chunk.shape.encode c ≠ doneMark := record_ne_doneMark
  have herror : ErrorBody.shape.decodeText (Chunk.shape.encode c) =
      .error (.missingField "error") := ErrorBody.decodeText_record c.writable (by decide)
  have hchunk : Chunk.shape.decodeText (Chunk.shape.encode c) = .ok c :=
    Chunk.shape.decodeText_encode c.writable (by decide)
  rw [Frame.ofData, if_neg hmark, herror]
  simp only [hchunk]

theorem ofData_errorBody (b : ErrorBody) :
    Frame.ofData (ErrorBody.shape.encode b) = .item (.error (.remote b.error.message)) := by
  have hmark : ErrorBody.shape.encode b ≠ doneMark := record_ne_doneMark
  have hbody : ErrorBody.shape.decodeText (ErrorBody.shape.encode b) = .ok b :=
    ErrorBody.shape.decodeText_encode b.writable (by decide)
  rw [Frame.ofData, if_neg hmark, hbody]

theorem ofData_doneMark : Frame.ofData doneMark = .done := if_pos rfl

/-! ### The items of an answer -/

/-- An item as the other side gets it: a failure is one that the writer reports. -/
def reported : Item → Item
  | .ok chunk => .ok chunk
  | .error f => .error (.remote f.message)

theorem untilFault_map_ok (chunks : List Chunk) :
    untilFault (chunks.map .ok) = chunks.map .ok := by
  induction chunks with
  | nil => rfl
  | cons c cs ih => rw [List.map_cons, untilFault, ih]

theorem encode_join_cons (event : String) (events : List String) :
    Utf8.encode (String.join (event :: events)) =
      Utf8.encode event ++ Utf8.encode (String.join events) := by
  rw [String.join_cons, Utf8.encode_append]

/-- The items of what is written, whatever follows its last event. -/
theorem decodeWhole_encode (is : List Item) (ending : BodyEnd) :
    decodeWhole (Utf8.encode (encode is)) ending =
      (untilFault is).map reported ++ if is.any Relay.isFault then lastItems [] ending else [] := by
  induction is with
  | nil =>
    rw [encode, events, encode_join_cons, decodeWhole_event .doneMark, ofData_doneMark]
    rfl
  | cons i is ih =>
    cases i with
    | ok c =>
      rw [encode, events, encode_join_cons, decodeWhole_event (.chunk c), ofData_chunk]
      exact congrArg (Except.ok c :: ·) ih
    | error f =>
      have hnothing : decodeWhole (Utf8.encode (String.join [])) ending = lastItems [] ending :=
        decodeWhole_of_none ending rfl
      rw [encode, events, faultEvent, encode_join_cons, decodeWhole_event (.errorBody _),
        ofData_errorBody]
      exact congrArg (Except.error (AgentFault.remote f.message) :: ·) hnothing

/-- An answer that is written and then read in any pieces gives its chunks up to the first failure,
and that failure as a reported one. Whatever a chunk says, its event is read as this chunk. The
chunks that a node agent streams for some texts are read, however the body ends, as one chunk for
each with its text. -/
theorem decode_encode :
    (∀ (is : List Item) (pieces : List (List UInt8)), pieces.flatten = Utf8.encode (encode is) →
        decode pieces .clean = (untilFault is).map reported) ∧
      (∀ c : Chunk,
        Frame.ofBytes (Utf8.encode (dataStart ++ Chunk.shape.encode c)) = .item (.ok c)) ∧
      ∀ (model : String) (parts : List (String × Int64 × String)) (chunks : List Chunk)
        (pieces : List (List UInt8)) (ending : BodyEnd),
        chunks = parts.map (fun p => Chunk.ofDelta p.1 p.2.1 model p.2.2) →
        pieces.flatten = Utf8.encode (agentBody chunks) →
          decode pieces ending = chunks.map .ok ∧
            chunks.map Chunk.content? = parts.map fun p => some p.2.2 := by
  refine ⟨?_, ?_, ?_⟩
  · intro is pieces h
    have hnothing : lastItems [] .clean = [] := rfl
    rw [decode_eq_decodeWhole, h, decodeWhole_encode, hnothing, ite_self, List.append_nil]
  · intro c
    rw [(IsLine.chunk c).ofBytes, ofData_chunk]
  · intro model parts chunks pieces ending hchunks h
    have hfault : (chunks.map Except.ok).any Relay.isFault = false := by
      rw [List.any_map]
      exact List.any_eq_false.2 fun _ _ => Bool.false_ne_true
    constructor
    · rw [decode_eq_decodeWhole, h, agentBody, decodeWhole_encode, hfault, untilFault_map_ok,
        List.map_map]
      exact List.append_nil _
    · rw [hchunks, List.map_map]
      rfl

/-- Two parts, one of which spells an event; the second answer breaks off behind its first part. -/
theorem decode_encode_cut :
    let first := Chunk.ofDelta "1" 0 "m" "data: \"[DONE]\"\n\n"
    let second := Chunk.ofDelta "2" (-5) "m" "é"
    let whole := Utf8.encode (agentBody [first, second])
    let broken := Utf8.encode (encode [.ok first, .error (.stream "reset"), .ok second])
    decode [whole.take 5, [], whole.drop 5] (.broken "reset") = [.ok first, .ok second] ∧
      first.content? = some "data: \"[DONE]\"\n\n" ∧
      decode [broken.take 200, broken.drop 200] .clean =
        [.ok first, .error (.remote "stream from node agent broke: reset")] := by
  intro first second whole broken
  have hparts := decode_encode.2.2 "m" [("1", 0, "data: \"[DONE]\"\n\n"), ("2", -5, "é")]
    [first, second] [whole.take 5, [], whole.drop 5] (.broken "reset") rfl
    (by simp only [List.flatten_cons, List.flatten_nil, List.append_nil, List.nil_append,
      List.take_append_drop]; rfl)
  refine ⟨hparts.1, (List.cons.inj hparts.2).1, ?_⟩
  rw [decode_encode.1 [.ok first, .error (.stream "reset"), .ok second]]
  · rfl
  · simp only [List.flatten_cons, List.flatten_nil, List.append_nil, List.take_append_drop]
    rfl

end InferenceFleet.EventStream
