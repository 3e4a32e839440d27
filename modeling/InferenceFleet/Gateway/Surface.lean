import InferenceFleet.Control
import InferenceFleet.EventStream.Encoder
import InferenceFleet.Gateway.ApiKey
import InferenceFleet.Gateway.Messages
import InferenceFleet.Http.Message

/-!
# The gateway

Chat completions, embeddings and the list of nodes for clients from outside. All but the health
report is behind the key. Pages of any origin may call: preflight requests are answered before
routing and without a key.
-/

namespace InferenceFleet.Gateway

open Http

inductive Endpoint where
  | health
  | chat
  | embeddings
  | nodes
  deriving DecidableEq

namespace Endpoint

def paths : List (String × Endpoint) :=
  [("/health", .health), ("/v1/chat/completions", .chat), ("/v1/embeddings", .embeddings),
    ("/api/nodes", .nodes)]

def ofPath? (path : List Char) : Option Endpoint := paths.lookup (String.ofList path)

def method : Endpoint → Method
  | .health | .nodes => .get
  | .chat | .embeddings => .post

/-- Whether a key is needed, when one is configured. -/
def isProtected : Endpoint → Bool
  | .health => false
  | _ => true

end Endpoint

def refuse (r : Refusal) : Response := .ofShape ErrorBody.shape r.kind.gatewayStatus r.body

/-- The answer to a client that does not want a stream: the first item, as a complete answer. -/
def completion (items : List Item) : Response :=
  match items with
  | .ok chunk :: _ => .ofShape Chunk.shape 200 chunk.completion
  | .error fault :: _ => refuse (.internal fault.message)
  | [] => refuse (.internal "node returned no response")

/-- Serves a request whose method the endpoint has and whose client is let in. -/
def serve (f : Fleet) (agents : Agents) (e : Endpoint) (body : List UInt8) : Response × Fleet :=
  match e with
  | .health => (.typed 200 jsonType f.health.toDoc.print, f)
  | .nodes => (.ofShape NodeListing.shape 200 f.listNodes, f)
  | .chat =>
    match readBody ChatRequest.shape body with
    | .error r => (refuse r, f)
    | .ok r =>
      match f.chat agents r.toInternal with
      | (.error fault, f) => (refuse fault, f)
      | (.ok items, f) =>
        (if r.isStream then .events (EventStream.encode items) else completion items, f)
  | .embeddings =>
    match readBody EmbeddingsRequest.shape body with
    | .error r => (refuse r, f)
    | .ok r =>
      match f.embeddings agents r.toInternal with
      | (.error fault, f) => (refuse fault, f)
      | (.ok response, f) => (.ofShape EmbeddingsResponse.shape 200 (.ofInternal response), f)

/-- The response that says an endpoint does not have the method. -/
def methodNotAllowed (e : Endpoint) (r : Response) : Response :=
  r.withHeader "allow" e.method.allowed

/-- The response to a request for the header of what could be got has no body; refusing `HEAD` where
nothing can be got keeps it. -/
def fitted (e : Endpoint) (r : Request) (response : Response) : Response :=
  if r.method == "HEAD" ∧ e.method = .get then response.headOnly else response

/-- Serves any request but a preflight. -/
def route (f : Fleet) (agents : Agents) (key : ApiKey) (r : Request) : Response × Fleet :=
  match Endpoint.ofPath? r.path with
  | none => (.empty 404, f)
  | some e =>
    let hasMethod := e.method.accepts r.method
    let admitted := if e.isProtected then key.authenticate (r.header "authorization") else .ok ()
    match admitted with
    | .error fault =>
      let refusal := fitted e r (Response.ofShape ErrorBody.shape 401 fault.body)
      (if hasMethod then refusal else methodNotAllowed e refusal, f)
    | .ok () =>
      if !hasMethod then (methodNotAllowed e (.empty 405), f)
      else if e.method = .post ∧ exceeds bodyLimit r.body then (bodyTooLong, f)
      else
        let (response, f) := serve f agents e r.body
        (fitted e r response, f)

/-- The header that lets pages of any origin read a response. -/
def openOrigin (r : Response) : Response := r.withHeader "access-control-allow-origin" "*"

/-- The answer to a preflight request. -/
def preflight (r : Request) : Response :=
  let answer := (openOrigin (.empty 200)).withHeader "access-control-allow-methods" "*"
    |>.withHeader "access-control-allow-headers" "*"
  match Endpoint.ofPath? r.path with
  | some e => methodNotAllowed e answer
  | none => answer

/-- Serves any request. -/
def handle (f : Fleet) (agents : Agents) (key : ApiKey) (r : Request) : Response × Fleet :=
  if r.method == "OPTIONS" then (preflight r, f)
  else
    let (response, f) := route f agents key r
    (openOrigin response, f)

end InferenceFleet.Gateway
