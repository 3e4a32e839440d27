import InferenceFleet.Clients
import InferenceFleet.Processor
import InferenceFleet.Registry

/-!
# The state of a fleet

The parts of a control plane together, with a record of what it has done to the outside: the
targets dialled and the requests that agents were asked to serve. `Fleet.step` takes the processor
one step further, with everything that comes from outside as part of the step: the present instant,
the result of a dial, what an agent answers.
-/

namespace InferenceFleet

/-- A request that an agent is asked to serve. -/
structure Asked where
  target : String
  request : Payload
  deriving DecidableEq

structure Fleet where
  registry : Registry := .empty
  queue : Queue := .empty
  clients : Clients := .empty
  processor : Processor
  /-- The targets dialled so far, in order. -/
  dialled : List String := []
  /-- The requests that agents got so far, in order. -/
  asked : List Asked := []
  deriving DecidableEq

namespace Fleet

def ofLimit (maxConcurrentJobs : Nat) : Fleet := { processor := .ofLimit maxConcurrentJobs }

/-- Dials the target for a slot, unless that holds a client: the client, or why there is none. -/
def connect (f : Fleet) (slot : Slot) (target : String) (dial : Except AgentFault Unit) :
    Except AgentFault String × Fleet :=
  match f.clients.client? slot with
  | some client => (.ok client, f)
  | none =>
    (dial.map fun _ => target,
      { f with clients := f.clients.settle slot target dial, dialled := f.dialled ++ [target] })

section
variable (f : Fleet) (slot : Slot) (target : String) (dial : Except AgentFault Unit)

theorem connect_registry : (f.connect slot target dial).2.registry = f.registry := by
  unfold connect
  split <;> rfl

theorem connect_clients :
    (f.connect slot target dial).2.clients = f.clients.settle slot target dial := by
  unfold connect
  split
  · rename_i hclient
    rw [Clients.settle_of_some dial hclient]
  · rfl

variable {f slot target dial} in
/-- A dispatch gets the client in the slot, or the one it has dialled. -/
theorem connect_ok {client : String} (h : (f.connect slot target dial).1 = .ok client) :
    f.clients.client? slot = some client ∨ client = target := by
  unfold connect at h
  split at h
  · rename_i hclient
    cases h
    exact .inl hclient
  · cases dial with
    | error fault => cases h
    | ok _ => exact .inr (Except.ok.inj h).symm

end

/-- The request goes out to the agent at the target. -/
def ask (f : Fleet) (target : String) (request : Payload) : Fleet :=
  { f with asked := f.asked ++ [{ target, request }] }

end Fleet

/-- What an agent says to a task. -/
inductive Reply where
  /-- The call fails. -/
  | refused (fault : AgentFault)
  /-- A chat stream begins. -/
  | streaming
  | embeddings (r : EmbeddingsResponse)
  deriving DecidableEq

/-- A step of a task, with what comes from outside. -/
inductive TaskMove where
  /-- The payload is read. -/
  | read
  /-- A node is chosen from the registry. -/
  | select
  /-- The job is marked as running on its node. -/
  | mark (now : Instant)
  /-- The node's slot is found or made. -/
  | seek
  /-- The slot's client is there, or the dial for it has ended. -/
  | dial (result : Except AgentFault Unit)
  /-- The request goes out. -/
  | ask
  | reply (r : Reply)
  | item (i : Item)
  /-- The chat stream is over. -/
  | over
  /-- The shutdown is noticed while a stream is read. -/
  | interrupt
  /-- The outcome is recorded and the permit given back. -/
  | record (now : Instant)

/-- A step of the processor. -/
inductive Move where
  /-- A new run of the loop begins. -/
  | start
  | acquire
  /-- The loop takes a job. -/
  | dequeue
  /-- The loop has waited long enough and gives its permit back for a moment. -/
  | idle
  /-- The loop marks its job as assigned. -/
  | assign (now : Instant)
  /-- The loop starts the task of its job. -/
  | spawn
  /-- The present run is to be shut down. -/
  | cancel
  /-- The loop notices the shutdown. -/
  | stop
  | task (index : Nat) (move : TaskMove)

namespace Fleet

/-- The fleet after a step of the task `t`, and how far the task has come; `none` when the step
cannot be taken now. `record` is not among these steps. -/
def stepTask (f : Fleet) (t : Task) : TaskMove → Option (Fleet × Phase)
  | .read =>
    match t.phase with
    | .starting =>
      match Payload.read t.job with
      | .ok payload => some (f, .selecting payload)
      | .error fault => some (f, .ending (.failed fault))
    | _ => none
  | .select =>
    match t.phase with
    | .selecting payload =>
      match f.registry.select payload.model with
      | .ok node => some (f, .marking payload node)
      | .error fault => some (f, .ending (.failed (.noNode fault)))
    | _ => none
  | .mark now =>
    match t.phase with
    | .marking payload node =>
      match f.queue.assign now t.job.id .running node.id with
      | (.ok (), queue) => some ({ f with queue }, .seeking payload node)
      | (.error fault, queue) => some ({ f with queue }, .ending (.failed (.queue fault)))
    | _ => none
  | .seek =>
    match t.phase with
    | .seeking payload node =>
      let (slot, clients) := f.clients.slotFor node.id
      some ({ f with clients }, .dialling payload node slot)
    | _ => none
  | .dial result =>
    match t.phase with
    | .dialling payload node slot =>
      match f.connect slot node.agentTarget result with
      | (.ok target, f) => some (f, .asking payload node target)
      | (.error fault, f) => some (f, .ending (.failed (.dispatch node.id fault)))
    | _ => none
  | .ask =>
    match t.phase with
    | .asking payload node target => some (f.ask target payload, .waiting payload node target)
    | _ => none
  | .reply r =>
    match t.phase with
    | .waiting payload node _ =>
      match r, payload with
      | .refused fault, _ => some (f, .ending (.failed (.dispatch node.id fault)))
      | .streaming, .chat _ => some (f, .reading node none)
      | .embeddings r, .embeddings _ =>
        some (f, .ending (.completed (EmbeddingsResponse.shape.encode r)))
      | _, _ => none
    | _ => none
  | .item i =>
    match t.phase with
    | .reading node _ =>
      match i with
      | .ok chunk => some (f, .reading node (some chunk))
      | .error fault => some (f, .ending (.failed (.dispatch node.id fault)))
    | _ => none
  | .over =>
    match t.phase with
    | .reading _ last => some (f, .ending (.ofLast last))
    | _ => none
  | .interrupt =>
    match t.phase with
    | .reading _ _ => if t.cancelled then some (f, .ending .interrupted) else none
    | _ => none
  | .record _ => none

/-- The fleet after a step of the processor; `none` when the step cannot be taken now. -/
def step (f : Fleet) : Move → Option Fleet
  | .start =>
    match f.processor.loop with
    | .stopped =>
      some { f with processor := { f.processor with loop := .acquiring, cancelled := false } }
    | _ => none
  | .acquire =>
    match f.processor.loop, f.processor.free with
    | .acquiring, free + 1 =>
      some { f with processor := { f.processor with loop := .polling, free } }
    | _, _ => none
  | .dequeue =>
    match f.processor.loop with
    | .polling =>
      match f.queue.dequeue with
      | (some job, queue) =>
        some { f with queue, processor := { f.processor with loop := .holding job } }
      | (none, _) => none
    | _ => none
  | .idle =>
    match f.processor.loop with
    | .polling =>
      some { f with processor :=
        { f.processor with loop := .acquiring, free := f.processor.free + 1 } }
    | _ => none
  | .assign now =>
    match f.processor.loop with
    | .holding job =>
      match f.queue.setStatus now job.id .assigned with
      | (.ok (), queue) =>
        some { f with queue, processor := { f.processor with loop := .marked job } }
      | (.error _, queue) =>
        some { f with queue, processor :=
          { f.processor with loop := .acquiring, free := f.processor.free + 1 } }
    | _ => none
  | .spawn =>
    match f.processor.loop with
    | .marked job =>
      let task : Task := { job, cancelled := f.processor.cancelled }
      some { f with processor :=
        { f.processor with loop := .acquiring, tasks := f.processor.tasks ++ [task] } }
    | _ => none
  | .cancel =>
    match f.processor.loop with
    | .stopped => none
    | _ =>
      some { f with processor :=
        { f.processor with
          cancelled := true
          tasks := f.processor.tasks.map fun t => { t with cancelled := true } } }
  | .stop =>
    if f.processor.cancelled then
      match f.processor.loop with
      | .acquiring => some { f with processor := { f.processor with loop := .stopped } }
      | .polling =>
        some { f with processor :=
          { f.processor with loop := .stopped, free := f.processor.free + 1 } }
      | _ => none
    else none
  | .task index move =>
    match f.processor.tasks[index]? with
    | none => none
    | some t =>
      match move, t.phase with
      | .record now, .ending outcome =>
        some { f with
          queue := (outcome.record f.queue now t.job.id).2
          processor :=
            { f.processor with
              tasks := f.processor.tasks.eraseIdx index, free := f.processor.free + 1 } }
      | move, _ =>
        match f.stepTask t move with
        | some (f, phase) => some { f with processor := f.processor.setTask index { t with phase } }
        | none => none

/-- The fleet after some steps, those that cannot be taken being passed over. -/
def run (f : Fleet) (moves : List Move) : Fleet := moves.foldl (fun f m => (f.step m).getD f) f

end Fleet

end InferenceFleet
