import InferenceFleet.EventStream.Frame

/-!
# Writing an event stream

One event for each chunk and the end mark after the last; a failure is reported in an event and ends
the stream without the mark.
-/

namespace InferenceFleet.EventStream

/-- An event whose data has no line feed. -/
def event (data : String) : String := "data: " ++ data ++ "\n\n"

/-- The event that reports a failure. -/
def faultEvent (f : AgentFault) : String :=
  event (ErrorBody.shape.encode (Refusal.internal f.message).body)

/-- The events of an answer. -/
def events : List Item → List String
  | [] => [event doneMark]
  | .ok chunk :: is => event (Chunk.shape.encode chunk) :: events is
  | .error f :: _ => [faultEvent f]

/-- The body of a streamed answer. -/
def encode (is : List Item) : String := String.join (events is)

/-- The body in which a node agent streams chunks. -/
def agentBody (chunks : List Chunk) : String := encode (chunks.map .ok)

end InferenceFleet.EventStream
