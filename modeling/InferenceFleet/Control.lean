import InferenceFleet.Dispatch

/-!
# The operations of the control plane

What node agents, batch clients and the gateway can ask for. Each operation takes the fleet and
gives its answer or a refusal, and the fleet after it.
-/

namespace InferenceFleet

namespace Fleet

/-- The result of an operation on one part, as an operation on the fleet. -/
def acknowledge (f : Fleet) (result : Except Refusal Fleet) : Except Refusal Ack × Fleet :=
  match result with
  | .ok f => (.ok { success := true }, f)
  | .error r => (.error r, f)

/-- The clients after a node's registration: one that comes back at another target needs a new
client. -/
def evictMoved (f : Fleet) (n : Node) : Clients :=
  match f.registry.get? n.id with
  | some previous =>
    if previous.agentTarget ≠ n.agentTarget then (f.clients.evict n.id).2 else f.clients
  | none => f.clients

def registerNode (f : Fleet) (now : Instant) (r : RegisterRequest) : Except Refusal Ack × Fleet :=
  f.acknowledge <|
    match r.node with
    | none => .error (.invalidArgument "node is required")
    | some n =>
      if n.id.isEmpty then .error (.invalidArgument "node id is required")
      else .ok { f with clients := f.evictMoved n, registry := f.registry.register now n }

def heartbeat (f : Fleet) (now : Instant) (r : HeartbeatRequest) : Except Refusal Ack × Fleet :=
  f.acknowledge <|
    match f.registry.heartbeat now r.nodeId with
    | .ok registry => .ok { f with registry }
    | .error fault => .error fault.refusal

def updateNode (f : Fleet) (now : Instant) (r : UpdateRequest) : Except Refusal Ack × Fleet :=
  f.acknowledge <|
    match r.capabilities with
    | none => .error (.invalidArgument "capabilities are required")
    | some capabilities =>
      match f.registry.setCapabilities now r.nodeId capabilities with
      | .ok registry => .ok { f with registry }
      | .error fault => .error fault.refusal

def listNodes (f : Fleet) : NodeListing := { nodes := f.registry.list }

def submitJob (f : Fleet) (now : Instant) (r : Submission) :
    Except Refusal SubmissionReceipt × Fleet :=
  if r.jobId.isEmpty then (.error (.invalidArgument "job_id is required"), f)
  else
    match JobKind.ofName? r.jobType with
    | none => (.error (.invalidArgument (JobKind.unknownMessage r.jobType)), f)
    | some kind =>
      let job := Job.submitted r.jobId kind r.payload now
      match f.queue.enqueue now job with
      | (.ok (), queue) => (.ok { jobId := job.id, status := job.status }, { f with queue })
      | (.error fault, queue) => (.error fault.refusal, { f with queue })

def jobStatus (f : Fleet) (id : String) : Except Refusal JobReport :=
  match f.queue.get? id with
  | some job => .ok (.ofJob job)
  | none => .error (QueueFault.notFound id).refusal

/-- The items that the caller of a chat completion receives. -/
def chat (f : Fleet) (agents : Agents) (r : ChatRequest) : Except Refusal (List Item) × Fleet :=
  match f.dispatchChat agents r with
  | (.ok items, f) => (.ok (untilFault items), f)
  | (.error fault, f) => (.error fault.refusal, f)

def embeddings (f : Fleet) (agents : Agents) (r : EmbeddingsRequest) :
    Except Refusal EmbeddingsResponse × Fleet :=
  match f.dispatchEmbeddings agents r with
  | (.ok response, f) => (.ok response, f)
  | (.error fault, f) => (.error fault.refusal, f)

def health (f : Fleet) : Health :=
  { nodes := f.registry.size, pendingJobs := f.queue.pending.length }

/-- Removes a node if it is stale, and its client. -/
def sweepNode (f : Fleet) (now : Instant) (timeout : Nat) (id : String) : Bool × Fleet :=
  match f.registry.removeIfStale now id timeout with
  | some (_, registry) => (true, { f with registry, clients := (f.clients.evict id).2 })
  | none => (false, f)

/-- Removes the stale nodes among `ids`: those removed, and the fleet after it. -/
def sweepNodes (f : Fleet) (now : Instant) (timeout : Nat) : List String → List String × Fleet
  | [] => ([], f)
  | id :: ids =>
    let (removed, f) := f.sweepNode now timeout id
    let (others, f) := f.sweepNodes now timeout ids
    (if removed then id :: others else others, f)

/-- One heartbeat sweep, at one instant. -/
def sweep (f : Fleet) (now : Instant) (timeout : Nat) : List String × Fleet :=
  f.sweepNodes now timeout (f.registry.stale now timeout)

end Fleet

end InferenceFleet
