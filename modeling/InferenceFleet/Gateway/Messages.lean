import InferenceFleet.Chat
import InferenceFleet.Embeddings

/-!
# Messages of the gateway

The gateway's clients may leave out more, and may give one text where a list is meant. Each request
is turned into the one that nodes understand; fields left out become empty, and are refused later.
-/

namespace InferenceFleet.Gateway

open Json

structure Message where
  role : String
  content : Option String := none
  deriving DecidableEq

namespace Message

def toInternal (m : Message) : ChatMessage := { role := m.role, content := m.content.getD "" }

def shape : Shape Message :=
  .record "OpenAiMessage" (.required "role" .text <| .nullable "content" .text .nil)
    (fun (role, content, _) => { role, content }) (fun m => (m.role, m.content, ()))

end Message

structure ChatRequest where
  model : Option String := none
  messages : List Message := []
  temperature : Option Single := none
  maxTokens : Option UInt32 := none
  stream : Option Bool := none
  deriving DecidableEq

namespace ChatRequest

/-- Whether the client wants the answer in chunks. -/
def isStream (r : ChatRequest) : Bool := r.stream.getD false

def toInternal (r : ChatRequest) : InferenceFleet.ChatRequest :=
  { model := r.model.getD "", messages := r.messages.map Message.toInternal
    temperature := r.temperature, maxTokens := r.maxTokens, stream := r.isStream }

def shape : Shape ChatRequest :=
  .record "OpenAiChatRequest"
    (.nullable "model" .text <| .defaulted "messages" (.list Message.shape) [] <|
      .nullable "temperature" (.real .f32) <| .nullable "max_tokens" (.integer .u32) <|
      .nullable "stream" .flag .nil)
    (fun (model, messages, temperature, maxTokens, stream, _) =>
      { model, messages, temperature, maxTokens, stream })
    (fun r => (r.model, r.messages, r.temperature, r.maxTokens, r.stream, ()))

end ChatRequest

/-- One text or several. -/
inductive Input where
  | single (text : String)
  | batch (texts : List String)
  deriving DecidableEq

namespace Input

def toList : Input → List String
  | .single text => [text]
  | .batch texts => texts

def shape : Shape Input :=
  .textOrTexts "EmbeddingsInput" .single .batch fun
    | .single text => .inl text
    | .batch texts => .inr texts

end Input

structure EmbeddingsRequest where
  model : Option String := none
  input : Input := .batch []
  deriving DecidableEq

namespace EmbeddingsRequest

def toInternal (r : EmbeddingsRequest) : InferenceFleet.EmbeddingsRequest :=
  { model := r.model.getD "", input := r.input.toList }

def shape : Shape EmbeddingsRequest :=
  .record "OpenAiEmbeddingsRequest"
    (.nullable "model" .text <| .defaulted "input" Input.shape (.batch []) .nil)
    (fun (model, input, _) => { model, input }) (fun r => (r.model, r.input, ()))

end EmbeddingsRequest

structure Embedding where
  object : String
  embedding : List Double
  index : UInt32
  deriving DecidableEq

namespace Embedding

def ofInternal (e : InferenceFleet.Embedding) : Embedding :=
  { object := "embedding", embedding := e.values.map (·.convert .double), index := e.index }

def shape : Shape Embedding :=
  .record "OpenAiEmbedding"
    (.required "object" .text <| .required "embedding" (.list (.real .f64)) <|
      .required "index" (.integer .u32) .nil)
    (fun (object, embedding, index, _) => { object, embedding, index })
    (fun e => (e.object, e.embedding, e.index, ()))

end Embedding

structure Usage where
  promptTokens : UInt32
  totalTokens : UInt32
  deriving DecidableEq

def Usage.shape : Shape Usage :=
  .record "OpenAiEmbeddingsUsage"
    (.required "prompt_tokens" (.integer .u32) <| .required "total_tokens" (.integer .u32) .nil)
    (fun (promptTokens, totalTokens, _) => { promptTokens, totalTokens })
    (fun u => (u.promptTokens, u.totalTokens, ()))

structure EmbeddingsResponse where
  object : String
  data : List Embedding
  model : String
  usage : Usage
  deriving DecidableEq

namespace EmbeddingsResponse

/-- The answer of a node as the gateway's clients expect it. -/
def ofInternal (r : InferenceFleet.EmbeddingsResponse) : EmbeddingsResponse :=
  { object := "list", data := r.embeddings.map Embedding.ofInternal, model := r.model
    usage := { promptTokens := r.usage.promptTokens, totalTokens := r.usage.totalTokens } }

def shape : Shape EmbeddingsResponse :=
  .record "OpenAiEmbeddingsResponse"
    (.required "object" .text <| .required "data" (.list Embedding.shape) <|
      .required "model" .text <| .required "usage" Usage.shape .nil)
    (fun (object, data, model, usage, _) => { object, data, model, usage })
    (fun r => (r.object, r.data, r.model, r.usage, ()))

end EmbeddingsResponse

end InferenceFleet.Gateway
