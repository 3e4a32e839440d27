import InferenceFleet.Chat
import InferenceFleet.Failure

/-!
# Event-stream frames

A frame is the text between two blank lines. Its lines that begin with `data:` make up its data; the
data is a chunk, an error report, or the mark that ends the stream. A frame without data carries
nothing.
-/

namespace InferenceFleet

/-- One item of a streamed answer: a chunk, or what went wrong. -/
abbrev Item := Except AgentFault Chunk

namespace EventStream

/-- The data of the frame that ends a stream. -/
def doneMark : String := "[DONE]"

/-- What a frame carries. -/
inductive Frame where
  | item (i : Item)
  | done
  | nothing

/-- A line that ended in a line feed loses a carriage return at its end. -/
def withoutReturn (line : List Char) : List Char :=
  if line.getLast? = some '\r' then line.dropLast else line

/-- The lines of a text; `line` is the current one, latest character first. -/
def linesFrom (line : List Char) : List Char → List (List Char)
  | [] => if line.isEmpty then [] else [line.reverse]
  | c :: cs =>
    if c = '\n' then withoutReturn line.reverse :: linesFrom [] cs else linesFrom (c :: line) cs

def lines (text : List Char) : List (List Char) := linesFrom [] text

/-- What a line of data begins with. -/
def dataField : List Char := ['d', 'a', 't', 'a', ':']

/-- The data of a line, without one blank in front. -/
def lineData? (line : List Char) : Option (List Char) :=
  if dataField.isPrefixOf line then
    match line.drop dataField.length with
    | ' ' :: data => some data
    | data => some data
  else none

/-- The data of a frame, if it has any: that of its lines, trimmed. -/
def frameData? (text : List Char) : Option String :=
  match (lines text).filterMap lineData? with
  | [] => none
  | data => some (String.ofList (trimBlanks (['\n'].intercalate data)))

/-- What the data of a frame says. An error report is looked for first. -/
def Frame.ofData (data : String) : Frame :=
  if data = doneMark then .done
  else
    match ErrorBody.shape.decodeText data with
    | .ok body => .item (.error (.remote body.error.message))
    | .error _ =>
      match Chunk.shape.decodeText data with
      | .ok chunk => .item (.ok chunk)
      | .error fault => .item (.error (.decode fault))

def Frame.parse (text : String) : Frame :=
  match frameData? text.toList with
  | none => .nothing
  | some data => .ofData data

/-- The frame that some bytes spell; what is no UTF-8 in them is replaced. -/
def Frame.ofBytes (bytes : List UInt8) : Frame := .parse (Utf8.decodeLossy bytes)

end EventStream

end InferenceFleet
