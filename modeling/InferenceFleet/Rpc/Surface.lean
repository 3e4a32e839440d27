import InferenceFleet.Control
import InferenceFleet.EventStream.Encoder
import InferenceFleet.Http.Message
import InferenceFleet.Text.Percent

/-!
# The control surface

The operations of the control plane as JSON over HTTP, for node agents and batch clients. A refusal
has the status of its kind and a body with its code and message.
-/

namespace InferenceFleet.Rpc

open Http

/-- What a path leads to. -/
inductive Endpoint where
  | health
  | register
  | heartbeat
  | update
  | nodes
  | submit
  /-- A job's status; the id as it stands in the path. -/
  | job (segment : List Char)
  | chat
  | embeddings
  deriving DecidableEq

namespace Endpoint

/-- The paths without parameters. -/
def paths : List (String × Endpoint) :=
  [("/health", .health), ("/rpc/nodes/register", .register), ("/rpc/nodes/heartbeat", .heartbeat),
    ("/rpc/nodes/update", .update), ("/rpc/nodes", .nodes), ("/rpc/jobs", .submit),
    ("/rpc/chat/completions", .chat), ("/rpc/embeddings", .embeddings)]

/-- What the path of a job begins with; one segment follows, which is not empty. -/
def jobPath : List Char := "/rpc/jobs/".toList

def ofPath? (path : List Char) : Option Endpoint :=
  match paths.lookup (String.ofList path) with
  | some e => some e
  | none =>
    let segment := path.drop jobPath.length
    if jobPath.isPrefixOf path ∧ !segment.isEmpty ∧ !segment.contains '/' then some (.job segment)
    else none

def method : Endpoint → Method
  | .health | .nodes | .job _ => .get
  | _ => .post

end Endpoint

def refuse (r : Refusal) : Response := .ofShape ErrorBody.shape r.kind.status r.body

/-- The answer to an operation, as JSON. -/
def respond {α : Type} (s : Json.Shape α) (result : Except Refusal α × Fleet) : Response × Fleet :=
  match result with
  | (.ok a, f) => (.ofShape s 200 a, f)
  | (.error r, f) => (refuse r, f)

/-- Reads the body, then does the operation. -/
def withBody {α : Type} (f : Fleet) (s : Json.Shape α) (body : List UInt8)
    (operation : α → Response × Fleet) : Response × Fleet :=
  match readBody s body with
  | .ok a => operation a
  | .error r => (refuse r, f)

/-- A segment whose bytes are no text. -/
def badSegment : Response := .typed 400 textType "Invalid URL: Invalid UTF-8 in `job_id`"

/-- Serves a request whose method the endpoint has. -/
def serve (f : Fleet) (agents : Agents) (now : Instant) (e : Endpoint) (body : List UInt8) :
    Response × Fleet :=
  match e with
  | .health => (.typed 200 jsonType f.health.toDoc.print, f)
  | .nodes => (.ofShape NodeListing.shape 200 f.listNodes, f)
  | .job segment =>
    match Utf8.decode? (Percent.decodeText segment) with
    | some id => respond JobReport.shape (f.jobStatus id, f)
    | none => (badSegment, f)
  | .register =>
    withBody f RegisterRequest.shape body fun r => respond Ack.shape (f.registerNode now r)
  | .heartbeat =>
    withBody f HeartbeatRequest.shape body fun r => respond Ack.shape (f.heartbeat now r)
  | .update => withBody f UpdateRequest.shape body fun r => respond Ack.shape (f.updateNode now r)
  | .submit =>
    withBody f Submission.shape body fun r => respond SubmissionReceipt.shape (f.submitJob now r)
  | .chat =>
    withBody f ChatRequest.shape body fun r =>
      match f.chat agents r with
      | (.ok items, f) => (.events (EventStream.encode items), f)
      | (.error r, f) => (refuse r, f)
  | .embeddings =>
    withBody f EmbeddingsRequest.shape body fun r =>
      respond EmbeddingsResponse.shape (f.embeddings agents r)

/-- Serves any request. -/
def handle (f : Fleet) (agents : Agents) (now : Instant) (r : Request) : Response × Fleet :=
  match Endpoint.ofPath? r.path with
  | none => (.empty 404, f)
  | some e =>
    if e.method.accepts r.method then
      if e.method = .post ∧ exceeds bodyLimit r.body then (bodyTooLong, f)
      else
        let (response, f) := serve f agents now e r.body
        (if r.method == "HEAD" then response.headOnly else response, f)
    else ((Response.empty 405).withHeader "allow" e.method.allowed, f)

end InferenceFleet.Rpc
