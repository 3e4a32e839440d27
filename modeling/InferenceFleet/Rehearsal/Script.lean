import InferenceFleet.Dispatch
import InferenceFleet.EventStream.Encoder

/-!
# Scripted agents

Agents that play a part given to them, to try a fleet out without a network. A script says how an
agent answers each kind of request; a chat answer is a list of lines, among them pauses that last
until the agent is told to go on.
-/

namespace InferenceFleet.Rehearsal

/-- What chunks made on the spot need: an id and the present time. -/
structure Stamp where
  freshId : String
  created : Int64

/-- A line of a scripted chat answer. -/
inductive Line where
  | chunk (c : Chunk)
  /-- A part of an answer for the model of the request. -/
  | delta (content : String)
  /-- A complete answer with some token usage. -/
  | message (content : String) (finishReason : Option String)
  /-- A complete answer whose usage is counted: a token per message and per word. -/
  | answer (content : String)
  | fault (f : AgentFault)
  | pause
  deriving DecidableEq

namespace Line

/-- The usage of scripted complete answers. -/
def usage : Usage := .ofParts 3 4

def countedUsage (r : ChatRequest) (content : String) : Usage :=
  .ofParts (UInt32.ofNat r.messages.length) (UInt32.ofNat (wordCount content))

def isFault : Line → Bool
  | .fault _ => true
  | _ => false

/-- The item that a line other than a pause stands for. -/
def item? (s : Stamp) (r : ChatRequest) : Line → Option Item
  | .chunk c => some (.ok c)
  | .delta content => some (.ok (.ofDelta s.freshId s.created r.model content))
  | .message content finishReason =>
    some (.ok ((Chunk.ofMessage s.freshId s.created r.model content finishReason).withUsage usage))
  | .answer content =>
    some (.ok ((Chunk.ofMessage s.freshId s.created r.model content (some "stop")).withUsage
      (countedUsage r content)))
  | .fault f => some (.error f)
  | .pause => none

end Line

/-- How an agent answers a request for embeddings. -/
inductive VectorReply where
  | refused (f : AgentFault)
  | response (r : EmbeddingsResponse)
  /-- The vectors, a token being counted for each input. -/
  | vectors (vs : List (List Single))
  /-- No answer until the agent is told to go on, and then a failure. -/
  | pause

structure Script where
  chat : Except AgentFault (List Line) := .ok []
  embeddings : VectorReply := .response {}

namespace Script

/-- Streams a chunk for each of `contents`. -/
def replying (contents : List String) : Script :=
  { chat := .ok (contents.map .delta), embeddings := .vectors [] }

/-- Answers in one complete message. -/
def answering (content : String) : Script :=
  { chat := .ok [.answer content], embeddings := .vectors [] }

/-- Refuses every call. -/
def rejecting (message : String) : Script :=
  { chat := .error (.remote message), embeddings := .refused (.remote message) }

/-- After its lines the chat stream breaks. A complete message is not followed by anything. -/
def breaking (s : Script) : Script :=
  { s with chat := s.chat.map fun lines =>
      match lines with
      | [.answer content] => [.answer content]
      | lines => lines ++ [.fault (.stream "connection reset")] }

def withVectors (s : Script) (vs : List (List Single)) : Script :=
  match s.embeddings with
  | .vectors _ => { s with embeddings := .vectors vs }
  | _ => s

end Script

/-- A script, and how many dials fail before one succeeds. -/
structure Part where
  script : Script
  failures : Nat := 0

/-- Who answers at which target, and who answers at all others. -/
structure Cast where
  parts : List (String × Part) := []
  others : Option Part := none

namespace Cast

def part? (c : Cast) (target : String) : Option Part := c.parts.lookup target <|> c.others

def refused (target : String) : AgentFault := .connect (target ++ ": connection refused")

/-- A dial of `target` after the dials of `dialled`. -/
def dial (c : Cast) (dialled : List String) (target : String) : Except AgentFault Unit :=
  match c.part? target with
  | none => .error (refused target)
  | some p => if dialled.count target < p.failures then .error (refused target) else .ok ()

/-- The script of the agent that is reached at a target. -/
def script (c : Cast) (target : String) : Script := ((c.part? target).map (·.script)).getD {}

/-- The lines with which the agent answers a chat request. -/
def lines (c : Cast) (target : String) : Except AgentFault (List Line) := (c.script target).chat

/-- The lines up to the first pause. -/
def beforePause (lines : List Line) : List Line := lines.takeWhile (· ≠ .pause)

def embeddings (c : Cast) (target : String) (r : EmbeddingsRequest) :
    Except AgentFault EmbeddingsResponse :=
  match (c.script target).embeddings with
  | .refused f => .error f
  | .response response => .ok response
  | .vectors vs => .ok (.ofVectors r.model vs r.input.length)
  | .pause => .error (.remote "released")

/-- The agents as one dispatch sees them, after the dials of `dialled`. -/
def agents (c : Cast) (s : Stamp) (dialled : List String) : Agents where
  dial := c.dial dialled
  chat target r := (c.lines target).map fun lines => (beforePause lines).filterMap (Line.item? s r)
  embeddings target r := c.embeddings target r

end Cast

end InferenceFleet.Rehearsal
