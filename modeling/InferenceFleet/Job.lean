import InferenceFleet.Json.Shape

/-!
# Jobs

A job is a request that waits in the queue and is answered later. Its status only moves forward,
from pending to one of the two final ones.
-/

namespace InferenceFleet

open Json

inductive JobKind where
  | chatCompletion
  | embeddings
  deriving DecidableEq, Repr

namespace JobKind

def all : List JobKind := [.chatCompletion, .embeddings]

def name : JobKind → String
  | .chatCompletion => "chat_completion"
  | .embeddings => "embeddings"

def ofName? (s : String) : Option JobKind := all.find? fun k => k.name == s

/-- Why a text names no kind of job. -/
def unknownMessage (s : String) : String := "unknown job type: " ++ s

def shape : Shape JobKind := .choice (all.map name) ofName? name

end JobKind

inductive JobStatus where
  | pending
  | assigned
  | running
  | completed
  | failed
  deriving DecidableEq, Repr

namespace JobStatus

def all : List JobStatus := [.pending, .assigned, .running, .completed, .failed]

def name : JobStatus → String
  | .pending => "pending"
  | .assigned => "assigned"
  | .running => "running"
  | .completed => "completed"
  | .failed => "failed"

def ofName? (s : String) : Option JobStatus := all.find? fun t => t.name == s

/-- The place of a status in the life of a job. -/
def rank : JobStatus → Nat
  | .pending => 0
  | .assigned => 1
  | .running => 2
  | .completed => 3
  | .failed => 4

def isTerminal : JobStatus → Bool
  | .completed | .failed => true
  | _ => false

/-- Whether a job may go from `s` to `t`: not back, and nowhere from a final status. -/
def canMoveTo (s t : JobStatus) : Bool := !s.isTerminal && s.rank ≤ t.rank

def shape : Shape JobStatus := .choice (all.map name) ofName? name

end JobStatus

structure Job where
  id : String
  kind : JobKind
  payload : String
  status : JobStatus
  assignedNode : Option String := none
  result : Option String := none
  errorMessage : Option String := none
  createdAt : Instant
  updatedAt : Instant
  deriving DecidableEq

namespace Job

/-- A job as it is submitted. -/
def submitted (id : String) (kind : JobKind) (payload : String) (now : Instant) : Job :=
  { id, kind, payload, status := .pending, createdAt := now, updatedAt := now }

def shape : Shape Job :=
  .record "Job"
    (.required "id" .text <| .required "job_type" JobKind.shape <| .required "payload" .text <|
      .required "status" JobStatus.shape <| .nullable "assigned_node" .text <|
      .nullable "result" .text <| .nullable "error_message" .text <|
      .required "created_at" .instant <| .required "updated_at" .instant .nil)
    (fun (id, kind, payload, status, assignedNode, result, errorMessage, createdAt, updatedAt, _) =>
      { id, kind, payload, status, assignedNode, result, errorMessage, createdAt, updatedAt })
    (fun j => (j.id, j.kind, j.payload, j.status, j.assignedNode, j.result, j.errorMessage,
      j.createdAt, j.updatedAt, ()))

end Job

end InferenceFleet
