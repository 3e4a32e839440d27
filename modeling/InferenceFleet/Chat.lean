import InferenceFleet.Json.Shape

/-!
# Chat completions

A request is a list of messages for a model; the answer arrives in chunks. A chunk carries its text
in the delta or in the message of its first choice.
-/

namespace InferenceFleet

open Json

structure ChatMessage where
  role : String
  content : String := ""
  deriving DecidableEq

def ChatMessage.shape : Shape ChatMessage :=
  .record "ChatMessage" (.required "role" .text <| .defaulted "content" .text "" .nil)
    (fun (role, content, _) => { role, content }) (fun m => (m.role, m.content, ()))

structure ChatRequest where
  model : String := ""
  messages : List ChatMessage := []
  temperature : Option Single := none
  maxTokens : Option UInt32 := none
  stream : Bool := false
  deriving DecidableEq

def ChatRequest.shape : Shape ChatRequest :=
  .record "ChatCompletionRequest"
    (.defaulted "model" .text "" <| .defaulted "messages" (.list ChatMessage.shape) [] <|
      .omissible "temperature" (.real .f32) <| .omissible "max_tokens" (.integer .u32) <|
      .defaulted "stream" .flag false .nil)
    (fun (model, messages, temperature, maxTokens, stream, _) =>
      { model, messages, temperature, maxTokens, stream })
    (fun r => (r.model, r.messages, r.temperature, r.maxTokens, r.stream, ()))

/-- Tokens counted by the node. -/
structure Usage where
  promptTokens : UInt32
  completionTokens : UInt32
  totalTokens : UInt32
  deriving DecidableEq

namespace Usage

/-- The usage with the sum of its parts as the total. -/
def ofParts (promptTokens completionTokens : UInt32) : Usage :=
  { promptTokens, completionTokens, totalTokens := promptTokens + completionTokens }

def shape : Shape Usage :=
  .record "Usage"
    (.required "prompt_tokens" (.integer .u32) <| .required "completion_tokens" (.integer .u32) <|
      .required "total_tokens" (.integer .u32) .nil)
    (fun (promptTokens, completionTokens, totalTokens, _) =>
      { promptTokens, completionTokens, totalTokens })
    (fun u => (u.promptTokens, u.completionTokens, u.totalTokens, ()))

end Usage

structure Choice where
  index : UInt32 := 0
  message : Option ChatMessage := none
  delta : Option ChatMessage := none
  finishReason : Option String := none
  deriving DecidableEq

namespace Choice

/-- What a reader takes: the delta if there is one, else the message. -/
def content? (c : Choice) : Option String := (c.delta <|> c.message).map (·.content)

/-- The choice as part of a complete answer: its text in the message. -/
def completed (c : Choice) : Choice :=
  { c with message := c.message <|> c.delta, delta := none }

def shape : Shape Choice :=
  .record "ChunkChoice"
    (.defaulted "index" (.integer .u32) 0 <| .omissible "message" ChatMessage.shape <|
      .omissible "delta" ChatMessage.shape <| .omissible "finish_reason" .text .nil)
    (fun (index, message, delta, finishReason, _) => { index, message, delta, finishReason })
    (fun c => (c.index, c.message, c.delta, c.finishReason, ()))

end Choice

structure Chunk where
  id : String := ""
  object : String := ""
  created : Int64 := 0
  model : String := ""
  choices : List Choice := []
  usage : Option Usage := none
  deriving DecidableEq

namespace Chunk

/-- The kind of a chunk that is part of an answer. -/
def partKind : String := "chat.completion.chunk"

/-- The kind of a complete answer. -/
def wholeKind : String := "chat.completion"

/-- What the ids of chunks begin with. -/
def idStart : String := "chatcmpl-"

/-- The author of answers. -/
def assistant : String := "assistant"

/-- A part of an answer. `fresh` is an id never used before. -/
def ofDelta (fresh : String) (created : Int64) (model content : String) : Chunk :=
  { id := idStart ++ fresh, object := partKind, created, model
    choices := [{ delta := some { role := assistant, content } }] }

/-- A complete answer. -/
def ofMessage (fresh : String) (created : Int64) (model content : String)
    (finishReason : Option String) : Chunk :=
  { id := idStart ++ fresh, object := wholeKind, created, model
    choices := [{ message := some { role := assistant, content }, finishReason }] }

def withUsage (c : Chunk) (usage : Usage) : Chunk := { c with usage := some usage }

/-- The text of the first choice. -/
def content? (c : Chunk) : Option String := c.choices.head? >>= Choice.content?

/-- The chunk as one complete answer. -/
def completion (c : Chunk) : Chunk :=
  { c with object := wholeKind, choices := c.choices.map Choice.completed }

def shape : Shape Chunk :=
  .record "ChatCompletionChunk"
    (.defaulted "id" .text "" <| .defaulted "object" .text "" <|
      .defaulted "created" (.integer .i64) 0 <| .defaulted "model" .text "" <|
      .defaulted "choices" (.list Choice.shape) [] <| .omissible "usage" Usage.shape .nil)
    (fun (id, object, created, model, choices, usage, _) =>
      { id, object, created, model, choices, usage })
    (fun c => (c.id, c.object, c.created, c.model, c.choices, c.usage, ()))

end Chunk

end InferenceFleet
