import InferenceFleet.Json.Shape

/-!
# Embeddings

A request is a list of texts for a model; the answer has a vector for each.
-/

namespace InferenceFleet

open Json

structure EmbeddingsRequest where
  model : String := ""
  input : List String := []
  deriving DecidableEq

def EmbeddingsRequest.shape : Shape EmbeddingsRequest :=
  .record "EmbeddingsRequest"
    (.defaulted "model" .text "" <| .defaulted "input" (.list .text) [] .nil)
    (fun (model, input, _) => { model, input }) (fun r => (r.model, r.input, ()))

structure Embedding where
  index : UInt32
  values : List Single
  deriving DecidableEq

def Embedding.shape : Shape Embedding :=
  .record "Embedding"
    (.required "index" (.integer .u32) <| .required "values" (.list (.real .f32)) .nil)
    (fun (index, values, _) => { index, values }) (fun e => (e.index, e.values, ()))

structure EmbeddingsUsage where
  promptTokens : UInt32 := 0
  totalTokens : UInt32 := 0
  deriving DecidableEq

def EmbeddingsUsage.shape : Shape EmbeddingsUsage :=
  .record "EmbeddingsUsage"
    (.required "prompt_tokens" (.integer .u32) <| .required "total_tokens" (.integer .u32) .nil)
    (fun (promptTokens, totalTokens, _) => { promptTokens, totalTokens })
    (fun u => (u.promptTokens, u.totalTokens, ()))

structure EmbeddingsResponse where
  model : String := ""
  embeddings : List Embedding := []
  usage : EmbeddingsUsage := {}
  deriving DecidableEq

namespace EmbeddingsResponse

/-- The answer with `vectors` in their order, `tokens` tokens having been read. -/
def ofVectors (model : String) (vectors : List (List Single)) (tokens : Nat) :
    EmbeddingsResponse :=
  { model
    embeddings := vectors.zipIdx.map fun (values, i) => { index := UInt32.ofNat i, values }
    usage := { promptTokens := UInt32.ofNat tokens, totalTokens := UInt32.ofNat tokens } }

def shape : Shape EmbeddingsResponse :=
  .record "EmbeddingsResponse"
    (.defaulted "model" .text "" <| .defaulted "embeddings" (.list Embedding.shape) [] <|
      .defaulted "usage" EmbeddingsUsage.shape {} .nil)
    (fun (model, embeddings, usage, _) => { model, embeddings, usage })
    (fun r => (r.model, r.embeddings, r.usage, ()))

end EmbeddingsResponse

end InferenceFleet
