import InferenceFleet.Proofs.Queue.History

/-!
# The life of a fleet

`Fleet.Event` is whatever can happen to a fleet: a step of its processor or an operation of the
control plane, each taken at once. A `Life` is a fleet together with what has happened in it so far:
the jobs accepted, every request that an agent got and the job it was sent for, and whether the
processor was ever told to shut down.
-/

namespace InferenceFleet

namespace Fleet

inductive Event where
  | move (m : Move)
  | submit (now : Instant) (r : Submission)
  | register (now : Instant) (r : RegisterRequest)
  | heartbeat (now : Instant) (r : HeartbeatRequest)
  | update (now : Instant) (r : UpdateRequest)
  /-- One removal of a sweep; looking for the stale nodes changes nothing. -/
  | sweepNode (now : Instant) (timeout : Nat) (id : String)
  | chat (agents : Agents) (r : ChatRequest)
  | embeddings (agents : Agents) (r : EmbeddingsRequest)

/-- The fleet after an event. A step that the processor cannot take leaves it as it is. -/
def after (f : Fleet) : Event → Fleet
  | .move m => (f.step m).getD f
  | .submit now r => (f.submitJob now r).2
  | .register now r => (f.registerNode now r).2
  | .heartbeat now r => (f.heartbeat now r).2
  | .update now r => (f.updateNode now r).2
  | .sweepNode now timeout id => (f.sweepNode now timeout id).2
  | .chat agents r => (f.chat agents r).2
  | .embeddings agents r => (f.embeddings agents r).2

/-- The id of the job that the event submits, if it is accepted. -/
def accepted? (f : Fleet) : Event → Option String
  | .submit now r =>
    match (f.submitJob now r).1 with
    | .ok receipt => some receipt.jobId
    | .error _ => none
  | _ => none

/-- The id of the job whose task takes a step in the event. -/
def worker? (f : Fleet) : Event → Option String
  | .move (.task index _) => (f.processor.tasks[index]?).map (·.job.id)
  | _ => none

/-- The requests that agents get in the event. -/
def newlyAsked (f : Fleet) (e : Event) : List Asked := (f.after e).asked.drop f.asked.length

/-- The ids of the jobs that agents are asked to serve in the event. -/
def newlyServed (f : Fleet) (e : Event) : List String :=
  (f.newlyAsked e).filterMap fun _ => f.worker? e

/-- The result of the change that a step of the processor makes to a job's record, if it makes
one. -/
def update? (f : Fleet) : Move → Option (Except QueueFault Unit)
  | .assign now =>
    match f.processor.loop with
    | .holding job => some (f.queue.setStatus now job.id .assigned).1
    | _ => none
  | .task index (.mark now) =>
    match f.processor.tasks[index]? with
    | some { job, phase := .marking _ node, .. } =>
      some (f.queue.assign now job.id .running node.id).1
    | _ => none
  | .task index (.record now) =>
    match f.processor.tasks[index]? with
    | some { job, phase := .ending outcome, .. } => some (outcome.record f.queue now job.id).1
    | _ => none
  | _ => none

def Event.isCancel : Event → Bool
  | .move .cancel => true
  | _ => false

end Fleet

structure Life where
  fleet : Fleet
  /-- The ids of the jobs accepted, in order. -/
  accepted : List String := []
  /-- The requests that agents got, in order, each with the job whose task sent it; requests without
  a job were sent for callers that wait. -/
  requests : List (Option String × Asked) := []
  /-- A run of the processor was told to shut down. -/
  cancelled : Bool := false

namespace Life

open Fleet (Event)

def start (maxConcurrentJobs : Nat) : Life := { fleet := .ofLimit maxConcurrentJobs }

def after (l : Life) (e : Event) : Life where
  fleet := l.fleet.after e
  accepted := l.accepted ++ (l.fleet.accepted? e).toList
  requests := l.requests ++ (l.fleet.newlyAsked e).map fun a => (l.fleet.worker? e, a)
  cancelled := l.cancelled || e.isCancel

def run (l : Life) (events : List Event) : Life := events.foldl after l

end Life

/-! ### What the operations leave alone -/

namespace Fleet

section Dispatch
variable {f : Fleet} {agents : Agents} {P : Fleet → Prop} (h : P f)
  (hclient : ∀ n, P (f.clientFor agents n).2)
include h hclient

/-- A dispatch may get its node a client, and call it. -/
theorem withNode_induction {α : Type} {call : Fleet → String → Except AgentFault α × Fleet}
    (hcall : ∀ g target, P g → P (call g target).2) (model : String) :
    P (f.withNode agents model call).2 := by
  unfold withNode
  split
  · exact h
  · rename_i node _
    have hnode := hclient node
    split
    · rename_i heq
      rw [heq] at hnode
      exact hnode
    · rename_i target g heq
      rw [heq] at hnode
      have hanswer := hcall g target hnode
      split <;> rename_i heq' <;> rw [heq'] at hanswer <;> exact hanswer

variable (hask : ∀ g target request, P g → P (g.ask target request))
include hask

theorem chat_induction (r : ChatRequest) : P (f.chat agents r).2 := by
  have hdispatch : P (f.dispatchChat agents r).2 := by
    unfold dispatchChat
    split
    · exact h
    · split
      · exact h
      · exact withNode_induction h hclient (fun g target hg => hask g target _ hg) r.model
  unfold chat
  split <;> rename_i heq <;> rw [heq] at hdispatch <;> exact hdispatch

theorem embeddings_induction (r : EmbeddingsRequest) : P (f.embeddings agents r).2 := by
  have hdispatch : P (f.dispatchEmbeddings agents r).2 := by
    unfold dispatchEmbeddings
    split
    · exact h
    · split
      · exact h
      · exact withNode_induction h hclient (fun g target hg => hask g target _ hg) r.model
  unfold embeddings
  split <;> rename_i heq <;> rw [heq] at hdispatch <;> exact hdispatch

end Dispatch

/-- `g` has the queue and the processor of `f`, and its agents got what those of `f` got and maybe
more. -/
structure SameWork (f g : Fleet) : Prop where
  queue : g.queue = f.queue
  processor : g.processor = f.processor
  asked : f.asked <+: g.asked

namespace SameWork
variable {f g h : Fleet}

theorem refl (f : Fleet) : f.SameWork f := ⟨rfl, rfl, List.prefix_rfl⟩

theorem trans (hfg : f.SameWork g) (hgh : g.SameWork h) : f.SameWork h :=
  ⟨hgh.queue.trans hfg.queue, hgh.processor.trans hfg.processor, hfg.asked.trans hgh.asked⟩

theorem connect (f : Fleet) (slot : Slot) (target : String) (dial : Except AgentFault Unit) :
    f.SameWork (f.connect slot target dial).2 := by
  unfold Fleet.connect
  split
  · exact .refl f
  · exact ⟨rfl, rfl, List.prefix_rfl⟩

theorem clientFor (f : Fleet) (agents : Agents) (n : Node) :
    f.SameWork (f.clientFor agents n).2 :=
  trans (g := { f with clients := (f.clients.slotFor n.id).2 }) ⟨rfl, rfl, List.prefix_rfl⟩
    (connect ..)

theorem ask (f : Fleet) (target : String) (request : Payload) : f.SameWork (f.ask target request) :=
  ⟨rfl, rfl, List.prefix_append ..⟩

theorem chat (f : Fleet) (agents : Agents) (r : ChatRequest) : f.SameWork (f.chat agents r).2 :=
  chat_induction (.refl f) (clientFor f agents) (fun _ target _ h => h.trans (ask _ target _)) r

theorem embeddings (f : Fleet) (agents : Agents) (r : EmbeddingsRequest) :
    f.SameWork (f.embeddings agents r).2 :=
  embeddings_induction (.refl f) (clientFor f agents) (fun _ target _ h => h.trans (ask _ target _))
    r

theorem registerNode (f : Fleet) (now : Instant) (r : RegisterRequest) :
    f.SameWork (f.registerNode now r).2 := by
  unfold Fleet.registerNode
  split
  · exact .refl f
  · split
    · exact .refl f
    · exact ⟨rfl, rfl, List.prefix_rfl⟩

theorem heartbeat (f : Fleet) (now : Instant) (r : HeartbeatRequest) :
    f.SameWork (f.heartbeat now r).2 := by
  unfold Fleet.heartbeat
  split <;> exact ⟨rfl, rfl, List.prefix_rfl⟩

theorem updateNode (f : Fleet) (now : Instant) (r : UpdateRequest) :
    f.SameWork (f.updateNode now r).2 := by
  unfold Fleet.updateNode
  split
  · exact .refl f
  · split <;> exact ⟨rfl, rfl, List.prefix_rfl⟩

theorem sweepNode (f : Fleet) (now : Instant) (timeout : Nat) (id : String) :
    f.SameWork (f.sweepNode now timeout id).2 := by
  unfold Fleet.sweepNode
  split <;> exact ⟨rfl, rfl, List.prefix_rfl⟩

end SameWork

end Fleet

end InferenceFleet
