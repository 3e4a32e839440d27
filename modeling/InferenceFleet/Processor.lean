import InferenceFleet.Chat
import InferenceFleet.Embeddings
import InferenceFleet.EventStream.Frame
import InferenceFleet.Queue

/-!
# The processor

The processor takes jobs off the queue and gives each to a task of its own, which brings it to a
final status. A loop takes a permit, waits for a job, marks it as assigned and starts its task; the
task keeps the permit until it is done, so no more jobs are under way than there are permits.
Shutting down stops the loop and lets chat tasks break off; the jobs of those keep their status.
-/

namespace InferenceFleet

/-- A job's payload, read. -/
inductive Payload where
  | chat (r : ChatRequest)
  | embeddings (r : EmbeddingsRequest)
  deriving DecidableEq

namespace Payload

def read (j : Job) : Except JobFault Payload :=
  match j.kind with
  | .chatCompletion =>
    match ChatRequest.shape.decodeText j.payload with
    | .ok r => .ok (.chat r)
    | .error f => .error (.invalidPayload j.kind f)
  | .embeddings =>
    match EmbeddingsRequest.shape.decodeText j.payload with
    | .ok r => .ok (.embeddings r)
    | .error f => .error (.invalidPayload j.kind f)

def model : Payload → String
  | .chat r => r.model
  | .embeddings r => r.model

end Payload

/-- How a task ends. -/
inductive Outcome where
  | completed (result : String)
  | failed (fault : JobFault)
  /-- Broken off by a shutdown: nothing is recorded. -/
  | interrupted
  deriving DecidableEq

namespace Outcome

/-- The outcome of a chat stream that ended: its last chunk, or the empty text. -/
def ofLast (last : Option Chunk) : Outcome :=
  .completed ((last.map Chunk.shape.encode).getD "")

/-- Records the outcome of the job `id`. -/
def record (o : Outcome) (q : Queue) (now : Instant) (id : String) :
    Except QueueFault Unit × Queue :=
  match o with
  | .completed result => q.complete now id result
  | .failed fault => q.fail now id fault.message
  | .interrupted => (.ok (), q)

end Outcome

/-- How far a task has come. -/
inductive Phase where
  | starting
  /-- The payload is read. -/
  | selecting (payload : Payload)
  /-- A node is chosen. -/
  | marking (payload : Payload) (node : Node)
  /-- The job is running; the node's slot is looked for. -/
  | seeking (payload : Payload) (node : Node)
  /-- The client in the slot is waited for. -/
  | dialling (payload : Payload) (node : Node) (slot : Nat)
  /-- The agent at `target` is about to be asked. -/
  | asking (payload : Payload) (node : Node) (target : String)
  /-- The agent has been asked and has not answered. -/
  | waiting (payload : Payload) (node : Node) (target : String)
  /-- A chat stream is read; `last` is its latest chunk. -/
  | reading (node : Node) (last : Option Chunk)
  | ending (outcome : Outcome)
  deriving DecidableEq

structure Task where
  job : Job
  /-- Whether the run that started the task is shut down. -/
  cancelled : Bool := false
  phase : Phase := .starting
  deriving DecidableEq

/-- Where the loop is. -/
inductive Loop where
  | stopped
  /-- Waiting for a permit. -/
  | acquiring
  /-- Holding a permit and waiting for a job. -/
  | polling
  /-- Holding a permit and a job that is not marked yet. -/
  | holding (job : Job)
  /-- Holding a permit and a job that is marked as assigned and has no task yet. -/
  | marked (job : Job)
  deriving DecidableEq

/-- The permits that the loop holds. -/
def Loop.held : Loop → Nat
  | .polling | .holding _ | .marked _ => 1
  | _ => 0

structure Processor where
  /-- Permits that nobody holds. -/
  free : Nat
  loop : Loop := .stopped
  /-- Whether the present run is shut down. -/
  cancelled : Bool := false
  /-- The unfinished tasks, oldest first. -/
  tasks : List Task := []
  deriving DecidableEq

namespace Processor

/-- The number of permits when there is no limit: the most that a semaphore has. -/
def unlimitedPermits : Nat := (2 ^ 64 - 1) / 8

/-- The permits for a setting, zero meaning no limit. -/
def permits (maxConcurrentJobs : Nat) : Nat :=
  if maxConcurrentJobs = 0 then unlimitedPermits else maxConcurrentJobs

def ofLimit (maxConcurrentJobs : Nat) : Processor := { free := permits maxConcurrentJobs }

def setTask (p : Processor) (i : Nat) (t : Task) : Processor := { p with tasks := p.tasks.set i t }

end Processor

end InferenceFleet
