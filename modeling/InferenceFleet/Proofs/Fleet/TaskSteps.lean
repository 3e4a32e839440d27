import InferenceFleet.Proofs.Fleet.Life

/-!
# What a task's step can do

A task is in step with the record of its job as long as its phase allows the record's status
(`Phase.Allows`) and holds what the job's payload says (`Task.Consistent`). `Fleet.TaskStepped` and
`Fleet.Stepped` list what one step of a task, and of the processor, can make of the fleet; they are
read off the definitions once. `Fleet.StepsTo` is what every step of a task keeps.
-/

namespace InferenceFleet

/-- The job in the hand of the loop. -/
def Loop.job? : Loop → Option Job
  | .holding job | .marked job => some job
  | _ => none

namespace Phase

/-- The statuses that the job of a task in this phase can have. -/
def Allows : Phase → JobStatus → Prop
  | .starting, s => s = .assigned
  | .selecting _, s => s = .assigned
  | .marking _ _, s => s = .assigned
  | .ending (.failed _), s => s = .assigned ∨ s = .running
  | _, s => s = .running

/-- Whether the agent has been asked, or will not be. -/
def isPastAsking : Phase → Bool
  | .waiting _ _ _ | .reading _ _ | .ending _ => true
  | _ => false

theorem Allows.assigned_or_running {p : Phase} {s : JobStatus} (h : p.Allows s) :
    s = .assigned ∨ s = .running := by
  cases p with
  | ending outcome =>
    cases outcome with
    | failed fault => exact h
    | completed result => exact .inr h
    | interrupted => exact .inr h
  | starting => exact .inl h
  | selecting payload => exact .inl h
  | marking payload node => exact .inl h
  | seeking payload node => exact .inr h
  | dialling payload node slot => exact .inr h
  | asking payload node target => exact .inr h
  | waiting payload node target => exact .inr h
  | reading node last => exact .inr h

end Phase

/-- The phase of the task holds what its job says: the payload as read, and a chat where only a chat
can come to. -/
def Task.Consistent (t : Task) : Prop :=
  match t.phase with
  | .starting => True
  | .selecting payload => Payload.read t.job = .ok payload
  | .marking payload _ => Payload.read t.job = .ok payload
  | .seeking payload _ => Payload.read t.job = .ok payload
  | .dialling payload _ _ => Payload.read t.job = .ok payload
  | .asking payload _ _ => Payload.read t.job = .ok payload
  | .waiting payload _ _ => Payload.read t.job = .ok payload
  | .reading _ _ => t.job.kind = .chatCompletion
  | .ending .interrupted => t.job.kind = .chatCompletion ∧ t.cancelled = true
  | .ending _ => True

theorem Task.Consistent.cancel {t : Task} (h : t.Consistent) :
    ({ t with cancelled := true } : Task).Consistent := by
  obtain ⟨job, cancelled, phase⟩ := t
  cases phase with
  | ending outcome =>
    cases outcome with
    | completed result => exact h
    | failed fault => exact h
    | interrupted => exact ⟨h.1, rfl⟩
  | _ => exact h

theorem Payload.kind_of_read {j : Job} {r : ChatRequest} (h : Payload.read j = .ok (.chat r)) :
    j.kind = .chatCompletion := by
  unfold Payload.read at h
  cases hkind : j.kind with
  | chatCompletion => rfl
  | embeddings =>
    rw [hkind] at h
    simp only at h
    split at h <;> cases h

namespace Fleet
variable {f f' : Fleet} {t : Task} {m : TaskMove} {phase : Phase}

/-- All that a step of a task can make of the fleet and of the task's phase. -/
inductive TaskStepped (f : Fleet) (t : Task) : TaskMove → Fleet → Phase → Prop where
  | read {payload : Payload} : t.phase = .starting → Payload.read t.job = .ok payload →
    TaskStepped f t .read f (.selecting payload)
  | unreadable {fault : JobFault} : t.phase = .starting → Payload.read t.job = .error fault →
    TaskStepped f t .read f (.ending (.failed fault))
  | select {payload : Payload} {node : Node} : t.phase = .selecting payload →
    f.registry.select payload.model = .ok node →
    TaskStepped f t .select f (.marking payload node)
  | noNode {payload : Payload} {fault : NoNode} : t.phase = .selecting payload →
    f.registry.select payload.model = .error fault →
    TaskStepped f t .select f (.ending (.failed (.noNode fault)))
  | mark {payload : Payload} {node : Node} {now : Instant} {queue : Queue} :
    t.phase = .marking payload node →
    f.queue.assign now t.job.id .running node.id = (.ok (), queue) →
    TaskStepped f t (.mark now) { f with queue } (.seeking payload node)
  | unmarked {payload : Payload} {node : Node} {now : Instant} {fault : QueueFault}
    {queue : Queue} : t.phase = .marking payload node →
    f.queue.assign now t.job.id .running node.id = (.error fault, queue) →
    TaskStepped f t (.mark now) { f with queue } (.ending (.failed (.queue fault)))
  | seek {payload : Payload} {node : Node} : t.phase = .seeking payload node →
    TaskStepped f t .seek { f with clients := (f.clients.slotFor node.id).2 }
      (.dialling payload node (f.clients.slotFor node.id).1)
  | dial {payload : Payload} {node : Node} {slot : Slot} {result : Except AgentFault Unit}
    {target : String} {g : Fleet} : t.phase = .dialling payload node slot →
    f.connect slot node.agentTarget result = (.ok target, g) →
    TaskStepped f t (.dial result) g (.asking payload node target)
  | noClient {payload : Payload} {node : Node} {slot : Slot} {result : Except AgentFault Unit}
    {fault : AgentFault} {g : Fleet} : t.phase = .dialling payload node slot →
    f.connect slot node.agentTarget result = (.error fault, g) →
    TaskStepped f t (.dial result) g (.ending (.failed (.dispatch node.id fault)))
  | ask {payload : Payload} {node : Node} {target : String} :
    t.phase = .asking payload node target →
    TaskStepped f t .ask (f.ask target payload) (.waiting payload node target)
  | refused {payload : Payload} {node : Node} {target : String} {fault : AgentFault} :
    t.phase = .waiting payload node target →
    TaskStepped f t (.reply (.refused fault)) f (.ending (.failed (.dispatch node.id fault)))
  | streaming {r : ChatRequest} {node : Node} {target : String} :
    t.phase = .waiting (.chat r) node target →
    TaskStepped f t (.reply .streaming) f (.reading node none)
  | embedded {r : EmbeddingsRequest} {node : Node} {target : String} {e : EmbeddingsResponse} :
    t.phase = .waiting (.embeddings r) node target →
    TaskStepped f t (.reply (.embeddings e)) f
      (.ending (.completed (EmbeddingsResponse.shape.encode e)))
  | chunk {node : Node} {last : Option Chunk} {chunk : Chunk} : t.phase = .reading node last →
    TaskStepped f t (.item (.ok chunk)) f (.reading node (some chunk))
  | broken {node : Node} {last : Option Chunk} {fault : AgentFault} :
    t.phase = .reading node last →
    TaskStepped f t (.item (.error fault)) f (.ending (.failed (.dispatch node.id fault)))
  | over {node : Node} {last : Option Chunk} : t.phase = .reading node last →
    TaskStepped f t .over f (.ending (.ofLast last))
  | interrupt {node : Node} {last : Option Chunk} : t.phase = .reading node last →
    t.cancelled = true → TaskStepped f t .interrupt f (.ending .interrupted)

theorem taskStepped_of_stepTask (h : f.stepTask t m = some (f', phase)) :
    f.TaskStepped t m f' phase := by
  cases m <;> simp only [stepTask] at h
  case read =>
    split at h
    · rename_i hphase
      split at h <;> cases h <;> rename_i hread
      · exact .read hphase hread
      · exact .unreadable hphase hread
    · cases h
  case select =>
    split at h
    · rename_i hphase
      split at h <;> cases h <;> rename_i hselect
      · exact .select hphase hselect
      · exact .noNode hphase hselect
    · cases h
  case mark now =>
    split at h
    · rename_i hphase
      split at h <;> cases h <;> rename_i hassign
      · exact .mark hphase hassign
      · exact .unmarked hphase hassign
    · cases h
  case seek =>
    split at h <;> cases h
    exact .seek ‹_›
  case dial result =>
    split at h
    · rename_i hphase
      split at h <;> cases h <;> rename_i hconnect
      · exact .dial hphase hconnect
      · exact .noClient hphase hconnect
    · cases h
  case ask =>
    split at h <;> cases h
    exact .ask ‹_›
  case reply r =>
    split at h
    · rename_i hphase
      split at h <;> cases h
      · exact .refused hphase
      · exact .streaming hphase
      · exact .embedded hphase
    · cases h
  case item i =>
    split at h
    · rename_i hphase
      split at h <;> cases h
      · exact .chunk hphase
      · exact .broken hphase
    · cases h
  case «over» =>
    split at h <;> cases h
    exact .over ‹_›
  case interrupt =>
    split at h
    · rename_i hphase
      split at h <;> cases h
      exact .interrupt hphase ‹_›
    · cases h
  case record now => cases h

/-- A step of the task `t` makes `g` of the fleet `f` and brings the task to `phase`. -/
structure StepsTo (f : Fleet) (t : Task) (g : Fleet) (phase : Phase) : Prop where
  processor : g.processor = f.processor
  consistent : t.Consistent → ({ t with phase } : Task).Consistent
  /-- The queue changes only where the job is marked as running. -/
  queue : (g.queue = f.queue ∧ ∀ s, t.phase.Allows s → phase.Allows s) ∨
    ∃ now payload node, t.phase = .marking payload node ∧
      g.queue = (f.queue.assign now t.job.id .running node.id).2 ∧
      ((f.queue.assign now t.job.id .running node.id).1 = .ok () → phase = .seeking payload node)
  /-- An agent gets at most one request, and never from a task that is past asking. -/
  asked : (g.asked = f.asked ∧ (t.phase.isPastAsking = true → phase.isPastAsking = true)) ∨
    ∃ a, g.asked = f.asked ++ [a] ∧ t.phase.isPastAsking = false ∧ phase.isPastAsking = true

namespace StepsTo

/-- A step that only moves the task on, to a phase in which the job has the same status. -/
theorem quiet (hprocessor : f'.processor = f.processor) (hqueue : f'.queue = f.queue)
    (hasked : f'.asked = f.asked) (hallows : ∀ s, t.phase.Allows s → phase.Allows s)
    (hpast : t.phase.isPastAsking = true → phase.isPastAsking = true)
    (hconsistent : t.Consistent → ({ t with phase } : Task).Consistent) :
    f.StepsTo t f' phase :=
  ⟨hprocessor, hconsistent, .inl ⟨hqueue, hallows⟩, .inl ⟨hasked, hpast⟩⟩

/-- A step that ends the task with a failure. -/
theorem failed (fault : JobFault) (hprocessor : f'.processor = f.processor)
    (hqueue : f'.queue = f.queue) (hasked : f'.asked = f.asked) :
    f.StepsTo t f' (.ending (.failed fault)) :=
  quiet hprocessor hqueue hasked (fun _ h => h.assigned_or_running) (fun _ => rfl) fun _ => trivial

end StepsTo

theorem connect_asked (f : Fleet) (slot : Slot) (target : String) (dial : Except AgentFault Unit) :
    (f.connect slot target dial).2.asked = f.asked := by
  unfold connect
  split <;> rfl

theorem stepsTo_of_stepTask (h : f.stepTask t m = some (f', phase)) : f.StepsTo t f' phase := by
  have hstepped := taskStepped_of_stepTask h
  clear h
  obtain ⟨job, cancelled, before⟩ := t
  cases hstepped with
  | read hphase hread =>
    cases hphase
    exact .quiet rfl rfl rfl (fun _ hs => hs) (fun h => by cases h) fun _ => hread
  | unreadable hphase => exact .failed _ rfl rfl rfl
  | select hphase =>
    cases hphase
    exact .quiet rfl rfl rfl (fun _ hs => hs) (fun h => by cases h) id
  | noNode hphase => exact .failed _ rfl rfl rfl
  | @mark payload node now queue hphase hassign =>
    cases hphase
    exact ⟨rfl, id, .inr ⟨now, payload, node, rfl, by rw [hassign], fun _ => rfl⟩,
      .inl ⟨rfl, fun h => by cases h⟩⟩
  | @unmarked payload node now fault queue hphase hassign =>
    cases hphase
    refine ⟨rfl, fun _ => trivial, .inr ⟨now, payload, node, rfl, by rw [hassign], ?_⟩,
      .inl ⟨rfl, fun _ => rfl⟩⟩
    intro hok
    rw [hassign] at hok
    cases hok
  | seek hphase =>
    cases hphase
    exact .quiet rfl rfl rfl (fun _ hs => hs) (fun h => by cases h) id
  | @dial payload node slot result target g hphase hconnect =>
    cases hphase
    have hwork := SameWork.connect f slot node.agentTarget result
    have hasked := connect_asked f slot node.agentTarget result
    rw [hconnect] at hwork hasked
    exact .quiet hwork.processor hwork.queue hasked (fun _ hs => hs) (fun h => by cases h) id
  | @noClient payload node slot result fault g hphase hconnect =>
    have hwork := SameWork.connect f slot node.agentTarget result
    have hasked := connect_asked f slot node.agentTarget result
    rw [hconnect] at hwork hasked
    exact .failed _ hwork.processor hwork.queue hasked
  | @ask payload node target hphase =>
    cases hphase
    exact ⟨rfl, id, .inl ⟨rfl, fun _ hs => hs⟩, .inr ⟨⟨target, payload⟩, rfl, rfl, rfl⟩⟩
  | refused hphase => exact .failed _ rfl rfl rfl
  | streaming hphase =>
    cases hphase
    exact .quiet rfl rfl rfl (fun _ hs => hs) (fun _ => rfl) Payload.kind_of_read
  | embedded hphase =>
    cases hphase
    exact .quiet rfl rfl rfl (fun _ hs => hs) (fun _ => rfl) fun _ => trivial
  | chunk hphase =>
    cases hphase
    exact .quiet rfl rfl rfl (fun _ hs => hs) (fun _ => rfl) id
  | broken hphase => exact .failed _ rfl rfl rfl
  | «over» hphase =>
    cases hphase
    exact .quiet rfl rfl rfl (fun _ hs => hs) (fun _ => rfl) fun _ => trivial
  | interrupt hphase hcancelled =>
    cases hphase
    exact .quiet rfl rfl rfl (fun _ hs => hs) (fun _ => rfl) fun hchat => ⟨hchat, hcancelled⟩

/-! ### Steps of the processor -/

/-- All that a step of the processor can make of the fleet. -/
inductive Stepped (f : Fleet) : Move → Fleet → Prop where
  /-- The loop has no job in hand, and takes none. -/
  | loop {m : Move} {p : Processor} : (∀ i x, m ≠ .task i x) → f.processor.loop.job? = none →
    p.loop.job? = none → p.tasks = f.processor.tasks →
    (p.cancelled = true → f.processor.cancelled = true) → Stepped f m { f with processor := p }
  | dequeue {job : Job} {queue : Queue} : f.processor.loop = .polling →
    f.queue.dequeue = (some job, queue) →
    Stepped f .dequeue { f with queue, processor := { f.processor with loop := .holding job } }
  | assign {job : Job} {queue : Queue} {now : Instant} : f.processor.loop = .holding job →
    f.queue.setStatus now job.id .assigned = (.ok (), queue) →
    Stepped f (.assign now) { f with queue, processor := { f.processor with loop := .marked job } }
  | unassigned {job : Job} {queue : Queue} {now : Instant} {fault : QueueFault} :
    f.processor.loop = .holding job →
    f.queue.setStatus now job.id .assigned = (.error fault, queue) →
    Stepped f (.assign now) { f with
      queue
      processor := { f.processor with loop := .acquiring, free := f.processor.free + 1 } }
  | spawn {job : Job} : f.processor.loop = .marked job →
    Stepped f .spawn { f with processor := { f.processor with
      loop := .acquiring
      tasks := f.processor.tasks ++ [{ job, cancelled := f.processor.cancelled }] } }
  | cancel : Stepped f .cancel { f with processor := { f.processor with
      cancelled := true, tasks := f.processor.tasks.map fun t => { t with cancelled := true } } }
  | record {i : Nat} {t : Task} {now : Instant} {outcome : Outcome} :
    f.processor.tasks[i]? = some t → t.phase = .ending outcome →
    Stepped f (.task i (.record now)) { f with
      queue := (outcome.record f.queue now t.job.id).2
      processor := { f.processor with
        tasks := f.processor.tasks.eraseIdx i, free := f.processor.free + 1 } }
  | task {i : Nat} {t : Task} {x : TaskMove} {g : Fleet} {phase : Phase} :
    f.processor.tasks[i]? = some t → f.stepTask t x = some (g, phase) →
    Stepped f (.task i x) { g with processor := g.processor.setTask i { t with phase } }

theorem stepped_of_step {g : Fleet} {m : Move} (h : f.step m = some g) : f.Stepped m g := by
  cases m <;> simp only [step] at h
  case start =>
    split at h <;> cases h
    rename_i hloop
    exact .loop (fun _ _ h => by cases h) (by rw [hloop]; rfl) rfl rfl fun h => by cases h
  case acquire =>
    split at h <;> cases h
    rename_i hloop _
    exact .loop (fun _ _ h => by cases h) (by rw [hloop]; rfl) rfl rfl id
  case dequeue =>
    split at h
    · rename_i hloop
      split at h <;> cases h
      rename_i hdequeue
      exact .dequeue hloop hdequeue
    · cases h
  case idle =>
    split at h <;> cases h
    rename_i hloop
    exact .loop (fun _ _ h => by cases h) (by rw [hloop]; rfl) rfl rfl id
  case assign now =>
    split at h
    · rename_i job hloop
      split at h <;> cases h <;> rename_i hstatus
      · exact .assign hloop hstatus
      · exact .unassigned hloop hstatus
    · cases h
  case spawn =>
    split at h <;> cases h
    rename_i hloop
    exact .spawn hloop
  case cancel =>
    split at h <;> cases h
    exact .cancel
  case stop =>
    split at h
    · split at h <;> cases h <;> rename_i hloop
      · exact .loop (fun _ _ h => by cases h) (by rw [hloop]; rfl) rfl rfl id
      · exact .loop (fun _ _ h => by cases h) (by rw [hloop]; rfl) rfl rfl id
    · cases h
  case task i x =>
    split at h
    · cases h
    · rename_i t ht
      split at h
      · rename_i hphase
        cases h
        exact .record ht hphase
      · split at h <;> cases h
        rename_i hstep
        exact .task ht hstep

end Fleet

end InferenceFleet
