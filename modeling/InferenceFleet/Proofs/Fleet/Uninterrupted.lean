import InferenceFleet.Control
import Mathlib.Logic.Function.Iterate

/-!
# A task that nobody interrupts

`Fleet.finish` lets one task take its steps to the end while nothing else happens and the world
answers as some `Agents` say. All that comes of it is the task's outcome and what it has done to the
fleet: `Fleet.execute` says so without steps, for a task that starts, and `Fleet.complete` for one
that has come to any phase (`finish_eq`).
-/

namespace InferenceFleet

theorem JobStatus.canMoveTo_of_isTerminal {s t : JobStatus} (hs : s.isTerminal = false)
    (ht : t.isTerminal = true) : s.canMoveTo t = true := by
  revert hs ht
  cases s <;> cases t <;> decide

namespace Outcome

/-- The outcome of a chat whose node streams the items after the chunk `last`. -/
def ofItems (nodeId : String) : Option Chunk → List Item → Outcome
  | last, [] => .ofLast last
  | _, .ok chunk :: is => ofItems nodeId (some chunk) is
  | _, .error fault :: _ => .failed (.dispatch nodeId fault)

/-- The record of a job with its outcome. -/
def note (now : Instant) (j : Job) : Outcome → Job
  | .completed result =>
    { j with status := .completed, updatedAt := now, result := some result, errorMessage := none }
  | .failed fault =>
    { j with
      status := .failed, updatedAt := now, errorMessage := some fault.message, result := none }
  | .interrupted => j

theorem get?_record {q : Queue} {id : String} {j : Job} (hget : q.get? id = some j)
    (hopen : j.status.isTerminal = false) (o : Outcome) (now : Instant) :
    (o.record q now id).2.get? id = some (o.note now j) := by
  cases o with
  | completed result =>
    have hmove := JobStatus.canMoveTo_of_isTerminal hopen (t := .completed) rfl
    have hrecord := (Queue.advance_of_canMoveTo now
      (f := fun j => { j with result := some result, errorMessage := none }) (fun _ => rfl) hget
      hmove).2.2 id
    rw [if_pos rfl] at hrecord
    exact hrecord
  | failed fault =>
    have hmove := JobStatus.canMoveTo_of_isTerminal hopen (t := .failed) rfl
    have hrecord := (Queue.advance_of_canMoveTo now
      (f := fun j => { j with errorMessage := some fault.message, result := none }) (fun _ => rfl)
      hget hmove).2.2 id
    rw [if_pos rfl] at hrecord
    exact hrecord
  | interrupted => exact hget

end Outcome

namespace Agents

/-- The outcome of a request to the agent at `target`, which belongs to the node `nodeId`. -/
def outcome (agents : Agents) (nodeId target : String) : Payload → Outcome
  | .chat r =>
    match agents.chat target r with
    | .ok items => .ofItems nodeId none items
    | .error fault => .failed (.dispatch nodeId fault)
  | .embeddings r =>
    match agents.embeddings target r with
    | .ok response => .completed (EmbeddingsResponse.shape.encode response)
    | .error fault => .failed (.dispatch nodeId fault)

/-- The steps of a task that has asked the agent at `target`. -/
def answers (agents : Agents) (target : String) : Payload → List TaskMove
  | .chat r =>
    match agents.chat target r with
    | .ok items => .reply .streaming :: (items.map .item ++ [.over])
    | .error fault => [.reply (.refused fault)]
  | .embeddings r =>
    match agents.embeddings target r with
    | .ok response => [.reply (.embeddings response)]
    | .error fault => [.reply (.refused fault)]

end Agents

namespace Phase

/-- The next steps of a task in the phase. -/
def moves (agents : Agents) (now : Instant) : Phase → List TaskMove
  | .starting => [.read]
  | .selecting _ => [.select]
  | .marking _ _ => [.mark now]
  | .seeking _ _ => [.seek]
  | .dialling _ node _ => [.dial (agents.dial node.agentTarget)]
  | .asking _ _ _ => [.ask]
  | .waiting payload _ target => agents.answers target payload
  | .reading _ _ => [.over]
  | .ending _ => []

/-- How often a task takes its next steps before it ends, at the most. -/
def rounds : Phase → Nat
  | .starting => 7
  | .selecting _ => 6
  | .marking _ _ => 5
  | .seeking _ _ => 4
  | .dialling _ _ _ => 3
  | .asking _ _ _ => 2
  | .waiting _ _ _ | .reading _ _ => 1
  | .ending _ => 0

theorem rounds_le (p : Phase) : p.rounds ≤ Phase.starting.rounds := by
  cases p <;> simp [rounds]

end Phase

namespace Fleet

section Definitions
variable (f : Fleet) (agents : Agents) (now : Instant)

/-- The task `i` takes its next steps. -/
def advance (i : Nat) : Fleet :=
  match f.processor.tasks[i]? with
  | some t => f.run ((t.phase.moves agents now).map (.task i))
  | none => f

/-- The task `i` runs to its end, and its outcome is recorded. -/
def finish (i : Nat) : Fleet :=
  ((fun g => advance g agents now i)^[Phase.starting.rounds] f).run [.task i (.record now)]

/-- What comes of a task that gets, or does not get, its client. -/
def call (payload : Payload) (node : Node) : Except AgentFault String × Fleet → Outcome × Fleet
  | (.ok target, f) => (agents.outcome node.id target payload, f.ask target payload)
  | (.error fault, f) => (.failed (.dispatch node.id fault), f)

/-- What comes of a task that has selected its node. -/
def place (job : Job) (payload : Payload) (node : Node) : Outcome × Fleet :=
  match f.queue.assign now job.id .running node.id with
  | (.ok (), queue) => call agents payload node (({ f with queue } : Fleet).clientFor agents node)
  | (.error fault, queue) => (.failed (.queue fault), { f with queue })

/-- What comes of a task that has read its payload. -/
def dispatch (job : Job) (payload : Payload) : Outcome × Fleet :=
  match f.registry.select payload.model with
  | .ok node => f.place agents now job payload node
  | .error fault => (.failed (.noNode fault), f)

/-- What comes of a task: its outcome, and the fleet before that is recorded. -/
def execute (job : Job) : Outcome × Fleet :=
  match Payload.read job with
  | .ok payload => f.dispatch agents now job payload
  | .error fault => (.failed fault, f)

/-- What comes of a task that has come to a phase. -/
def complete (job : Job) : Phase → Outcome × Fleet
  | .starting => f.execute agents now job
  | .selecting payload => f.dispatch agents now job payload
  | .marking payload node => f.place agents now job payload node
  | .seeking payload node => call agents payload node (f.clientFor agents node)
  | .dialling payload node slot =>
    call agents payload node (f.connect slot node.agentTarget (agents.dial node.agentTarget))
  | .asking payload node target => call agents payload node (.ok target, f)
  | .waiting payload node target => (agents.outcome node.id target payload, f)
  | .reading _ last => (.ofLast last, f)
  | .ending outcome => (outcome, f)

/-- The fleet with the task `i` in place of the present one. -/
def setTask (i : Nat) (t : Task) : Fleet := { f with processor := f.processor.setTask i t }

/-- The outcome of the task `i`, whose job is `id`, is recorded. -/
def dismiss (i : Nat) (id : String) (outcome : Outcome) : Fleet :=
  { f with
    queue := (outcome.record f.queue now id).2
    processor :=
      { f.processor with
        tasks := f.processor.tasks.eraseIdx i, free := f.processor.free + 1 } }

end Definitions

variable {f g : Fleet} {agents : Agents} {now : Instant} {i : Nat} {t u : Task}

theorem run_append (f : Fleet) (moves more : List Move) :
    f.run (moves ++ more) = (f.run moves).run more := List.foldl_append

theorem getElem?_setTask (h : i < f.processor.tasks.length) (t : Task) :
    (f.setTask i t).processor.tasks[i]? = some t := List.getElem?_set_self h

theorem setTask_setTask (f : Fleet) (i : Nat) (t u : Task) :
    (f.setTask i t).setTask i u = f.setTask i u := by
  simp only [setTask, Processor.setTask, List.set_set]

theorem setTask_self (h : f.processor.tasks[i]? = some t) : f.setTask i t = f := by
  obtain ⟨hi, ht⟩ := List.getElem?_eq_some_iff.1 h
  have htasks : f.processor.tasks.set i t = f.processor.tasks := by rw [← ht, List.set_getElem_self]
  rw [setTask, Processor.setTask, htasks]

theorem dismiss_setTask (f : Fleet) (now : Instant) (i : Nat) (t : Task) (id : String)
    (outcome : Outcome) :
    (f.setTask i t).dismiss now i id outcome = f.dismiss now i id outcome := by
  have htasks : (f.processor.tasks.set i t).eraseIdx i = f.processor.tasks.eraseIdx i :=
    List.eraseIdx_set_eq
  simp only [dismiss, setTask, Processor.setTask, htasks]

/-- A task takes a step that is not the recording of its outcome. -/
theorem step_of_stepTask {m : TaskMove} {phase : Phase} (ht : f.processor.tasks[i]? = some t)
    (h : f.stepTask t m = some (g, phase)) :
    f.step (.task i m) = some (g.setTask i { t with phase }) := by
  simp only [step, ht]
  split
  · cases h
  · rw [h]
    rfl

theorem run_task {m : TaskMove} {phase : Phase} (ht : f.processor.tasks[i]? = some t)
    (h : f.stepTask t m = some (g, phase)) (moves : List Move) :
    f.run (.task i m :: moves) = (g.setTask i { t with phase }).run moves := by
  rw [run, List.foldl_cons, step_of_stepTask ht h]
  rfl

/-- A task that has ended takes none of these steps. -/
theorem run_passed {outcome : Outcome} (ht : f.processor.tasks[i]? = some t)
    (hphase : t.phase = .ending outcome) {moves : List TaskMove}
    (hmoves : ∀ m ∈ moves, (∃ x, m = .item x) ∨ m = .over) : f.run (moves.map (.task i)) = f := by
  induction moves with
  | nil => rfl
  | cons m moves ih =>
    have hstep : f.step (.task i m) = none := by
      rcases hmoves m List.mem_cons_self with ⟨x, rfl⟩ | rfl <;>
        simp only [step, ht, stepTask, hphase]
    rw [List.map_cons, run, List.foldl_cons, hstep]
    exact ih fun m hm => hmoves m (List.mem_cons_of_mem _ hm)

/-- A task reads a chat stream to its end, or to the first failure. -/
theorem run_items {node : Node} {last : Option Chunk} (ht : f.processor.tasks[i]? = some t)
    (hphase : t.phase = .reading node last) (items : List Item) :
    f.run ((items.map TaskMove.item ++ [TaskMove.over]).map (.task i)) =
      f.setTask i { t with phase := .ending (.ofItems node.id last items) } := by
  have hi := (List.getElem?_eq_some_iff.1 ht).1
  induction items generalizing f t last with
  | nil =>
    have hover : f.stepTask t .over = some (f, .ending (.ofLast last)) := by
      simp only [stepTask, hphase]
    exact run_task ht hover []
  | cons x items ih =>
    cases x with
    | ok chunk =>
      have hitem : f.stepTask t (.item (.ok chunk)) = some (f, .reading node (some chunk)) := by
        simp only [stepTask, hphase]
      rw [List.map_cons, List.cons_append, List.map_cons, run_task ht hitem,
        ih (t := { t with phase := .reading node (some chunk) }) (getElem?_setTask hi _) rfl
          (Nat.lt_of_lt_of_eq hi List.length_set.symm), setTask_setTask]
      rfl
    | error fault =>
      have hitem : f.stepTask t (.item (.error fault)) =
          some (f, .ending (.failed (.dispatch node.id fault))) := by
        simp only [stepTask, hphase]
      rw [List.map_cons, List.cons_append, List.map_cons, run_task ht hitem]
      refine run_passed (getElem?_setTask hi _) rfl fun m hm => ?_
      rcases List.mem_append.1 hm with hm | hm
      · obtain ⟨x, -, rfl⟩ := List.mem_map.1 hm
        exact .inl ⟨x, rfl⟩
      · exact .inr (List.mem_singleton.1 hm)

theorem run_answers {payload : Payload} {node : Node} {target : String}
    (ht : f.processor.tasks[i]? = some t) (hphase : t.phase = .waiting payload node target) :
    f.run ((agents.answers target payload).map (.task i)) =
      f.setTask i { t with phase := .ending (agents.outcome node.id target payload) } := by
  have hi := (List.getElem?_eq_some_iff.1 ht).1
  cases payload with
  | chat r =>
    simp only [Agents.answers, Agents.outcome]
    cases agents.chat target r with
    | ok items =>
      have hreply : f.stepTask t (.reply .streaming) = some (f, .reading node none) := by
        simp only [stepTask, hphase]
      rw [List.map_cons, run_task ht hreply,
        run_items (t := { t with phase := .reading node none }) (getElem?_setTask hi _) rfl,
        setTask_setTask]
    | error fault =>
      have hreply : f.stepTask t (.reply (.refused fault)) =
          some (f, .ending (.failed (.dispatch node.id fault))) := by
        simp only [stepTask, hphase]
      exact run_task ht hreply []
  | embeddings r =>
    simp only [Agents.answers, Agents.outcome]
    cases agents.embeddings target r with
    | ok response =>
      have hreply : f.stepTask t (.reply (.embeddings response)) =
          some (f, .ending (.completed (EmbeddingsResponse.shape.encode response))) := by
        simp only [stepTask, hphase]
      exact run_task ht hreply []
    | error fault =>
      have hreply : f.stepTask t (.reply (.refused fault)) =
          some (f, .ending (.failed (.dispatch node.id fault))) := by
        simp only [stepTask, hphase]
      exact run_task ht hreply []

theorem advance_eq (ht : f.processor.tasks[i]? = some t) :
    f.advance agents now i = f.run ((t.phase.moves agents now).map (.task i)) := by
  rw [advance, ht]

/-- The next steps of a task leave its end as it is, and bring it nearer. -/
theorem complete_advance (agents : Agents) (now : Instant) (ht : f.processor.tasks[i]? = some t) :
    ∃ (g : Fleet) (phase : Phase), f.advance agents now i = g.setTask i { t with phase } ∧
      g.processor = f.processor ∧
      g.complete agents now t.job phase = f.complete agents now t.job t.phase ∧
      phase.rounds ≤ t.phase.rounds - 1 := by
  have hone : ∀ {m g phase}, t.phase.moves agents now = [m] → f.stepTask t m = some (g, phase) →
      f.advance agents now i = g.setTask i { t with phase } := by
    intro m g phase hmoves h
    rw [advance_eq ht, hmoves]
    exact run_task ht h []
  cases hphase : t.phase with
  | starting =>
    cases hread : Payload.read t.job with
    | ok payload =>
      refine ⟨f, .selecting payload, hone (by rw [hphase]; rfl) ?_, rfl, ?_, Nat.le_refl _⟩
      · simp only [stepTask, hphase, hread]
      · simp only [complete, execute, hread]
    | error fault =>
      refine ⟨f, .ending (.failed fault), hone (by rw [hphase]; rfl) ?_, rfl, ?_, Nat.zero_le _⟩
      · simp only [stepTask, hphase, hread]
      · simp only [complete, execute, hread]
  | selecting payload =>
    cases hselect : f.registry.select payload.model with
    | ok node =>
      refine ⟨f, .marking payload node, hone (by rw [hphase]; rfl) ?_, rfl, ?_, Nat.le_refl _⟩
      · simp only [stepTask, hphase, hselect]
      · simp only [complete, dispatch, hselect]
    | error fault =>
      refine ⟨f, .ending (.failed (.noNode fault)), hone (by rw [hphase]; rfl) ?_, rfl, ?_,
        Nat.zero_le _⟩
      · simp only [stepTask, hphase, hselect]
      · simp only [complete, dispatch, hselect]
  | marking payload node =>
    cases hassign : f.queue.assign now t.job.id .running node.id with
    | mk result queue =>
      cases result with
      | ok _ =>
        refine ⟨{ f with queue }, .seeking payload node, hone (by rw [hphase]; rfl) ?_, rfl, ?_,
          Nat.le_refl _⟩
        · simp only [stepTask, hphase, hassign]
        · simp only [complete, place, hassign]
      | error fault =>
        refine ⟨{ f with queue }, .ending (.failed (.queue fault)), hone (by rw [hphase]; rfl) ?_,
          rfl, ?_, Nat.zero_le _⟩
        · simp only [stepTask, hphase, hassign]
        · simp only [complete, place, hassign]
  | seeking payload node =>
    refine ⟨{ f with clients := (f.clients.slotFor node.id).2 },
      .dialling payload node (f.clients.slotFor node.id).1, hone (by rw [hphase]; rfl) ?_, rfl,
      rfl, Nat.le_refl _⟩
    simp only [stepTask, hphase]
  | dialling payload node slot =>
    have hprocessor : (f.connect slot node.agentTarget (agents.dial node.agentTarget)).2.processor =
        f.processor := by
      unfold connect
      split <;> rfl
    cases hconnect : f.connect slot node.agentTarget (agents.dial node.agentTarget) with
    | mk result g =>
      rw [hconnect] at hprocessor
      cases result with
      | ok target =>
        refine ⟨g, .asking payload node target, hone (by rw [hphase]; rfl) ?_, hprocessor, ?_,
          Nat.le_refl _⟩
        · simp only [stepTask, hphase, hconnect]
        · simp only [complete, hconnect]
      | error fault =>
        refine ⟨g, .ending (.failed (.dispatch node.id fault)), hone (by rw [hphase]; rfl) ?_,
          hprocessor, ?_, Nat.zero_le _⟩
        · simp only [stepTask, hphase, hconnect]
        · simp only [complete, hconnect, call]
  | asking payload node target =>
    refine ⟨f.ask target payload, .waiting payload node target, hone (by rw [hphase]; rfl) ?_, rfl,
      rfl, Nat.le_refl _⟩
    simp only [stepTask, hphase]
  | waiting payload node target =>
    refine ⟨f, .ending (agents.outcome node.id target payload), ?_, rfl, rfl, Nat.zero_le _⟩
    rw [advance_eq ht, hphase]
    exact run_answers ht hphase
  | reading node last =>
    refine ⟨f, .ending (.ofLast last), hone (by rw [hphase]; rfl) ?_, rfl, rfl, Nat.zero_le _⟩
    simp only [stepTask, hphase]
  | ending outcome =>
    refine ⟨f, .ending outcome, ?_, rfl, rfl, Nat.le_refl _⟩
    have hsame : ({ t with phase := .ending outcome } : Task) = t := by rw [← hphase]
    rw [advance_eq ht, hsame, setTask_self ht, hphase]
    rfl

/-! ### The work of a fleet has no part in its calls -/

section
variable (f : Fleet) (q : Queue) (p : Processor) (agents : Agents) (now : Instant) (job : Job)
  (payload : Payload) (node : Node)

theorem call_connect_work (slot : Slot) :
    call agents payload node (({ f with queue := q, processor := p } : Fleet).connect slot
        node.agentTarget (agents.dial node.agentTarget)) =
      let c := call agents payload node
        (f.connect slot node.agentTarget (agents.dial node.agentTarget))
      (c.1, { c.2 with queue := q, processor := p }) := by
  simp only [connect]
  split
  · rfl
  · cases agents.dial node.agentTarget <;> rfl

theorem call_connect_processor (slot : Slot) :
    call agents payload node (({ f with processor := p } : Fleet).connect slot node.agentTarget
        (agents.dial node.agentTarget)) =
      let c := call agents payload node
        (f.connect slot node.agentTarget (agents.dial node.agentTarget))
      (c.1, { c.2 with processor := p }) := by
  have hqueue : (call agents payload node (f.connect slot node.agentTarget
      (agents.dial node.agentTarget))).2.queue = f.queue :=
    congrArg (·.2.queue) (call_connect_work f f.queue f.processor agents payload node slot)
  refine (call_connect_work f f.queue p agents payload node slot).trans ?_
  rw [← hqueue]

/-- A call changes the clients, and notes what was dialled and asked. -/
theorem call_clientFor_work :
    call agents payload node
        (({ f with queue := q, processor := p } : Fleet).clientFor agents node) =
      let c := call agents payload node (f.clientFor agents node)
      (c.1, { c.2 with queue := q, processor := p }) :=
  call_connect_work { f with clients := (f.clients.slotFor node.id).2 } q p agents payload node _

theorem place_processor : ({ f with processor := p } : Fleet).place agents now job payload node =
    ((f.place agents now job payload node).1,
      { (f.place agents now job payload node).2 with processor := p }) := by
  simp only [place]
  split
  · rename_i queue _
    have hqueue := call_clientFor_work f queue f.processor agents payload node
    have hboth := call_clientFor_work f queue p agents payload node
    rw [hqueue, hboth]
  · rfl

theorem dispatch_processor : ({ f with processor := p } : Fleet).dispatch agents now job payload =
    ((f.dispatch agents now job payload).1,
      { (f.dispatch agents now job payload).2 with processor := p }) := by
  simp only [dispatch]
  split
  · exact place_processor f p agents now job payload _
  · rfl

theorem complete_processor (phase : Phase) :
    ({ f with processor := p } : Fleet).complete agents now job phase =
      ((f.complete agents now job phase).1,
        { (f.complete agents now job phase).2 with processor := p }) := by
  cases phase with
  | starting =>
    simp only [complete, execute]
    split
    · exact dispatch_processor f p agents now job _
    · rfl
  | selecting payload => exact dispatch_processor f p agents now job payload
  | marking payload node => exact place_processor f p agents now job payload node
  | seeking payload node =>
    exact call_connect_processor { f with clients := (f.clients.slotFor node.id).2 } p agents
      payload node _
  | dialling payload node slot => exact call_connect_processor f p agents payload node slot
  | asking payload node target => rfl
  | waiting payload node target => rfl
  | reading node last => rfl
  | ending outcome => rfl

end

@[simp] theorem processor_complete (f : Fleet) (agents : Agents) (now : Instant) (job : Job)
    (phase : Phase) : (f.complete agents now job phase).2.processor = f.processor :=
  congrArg (·.2.processor) (complete_processor f f.processor agents now job phase)

theorem complete_setTask (f : Fleet) (agents : Agents) (now : Instant) (job : Job) (phase : Phase)
    (i : Nat) (t : Task) : (f.setTask i t).complete agents now job phase =
      ((f.complete agents now job phase).1, (f.complete agents now job phase).2.setTask i t) := by
  rw [setTask, complete_processor, setTask, processor_complete]

/-! ### The end of a task -/

theorem dismiss_iterate (n : Nat) (ht : f.processor.tasks[i]? = some t) (hn : t.phase.rounds ≤ n) :
    ((fun g => advance g agents now i)^[n] f).run [.task i (.record now)] =
      (f.complete agents now t.job t.phase).2.dismiss now i t.job.id
        (f.complete agents now t.job t.phase).1 := by
  induction n generalizing f t with
  | zero =>
    cases hphase : t.phase with
    | ending outcome =>
      simp only [Function.iterate_zero, id, run, List.foldl_cons, step, ht, hphase, complete]
      rfl
    | _ => rw [hphase] at hn; cases hn
  | succ n ih =>
    obtain ⟨g, phase, hadvance, hprocessor, hcomplete, hrounds⟩ :=
      complete_advance agents now ht
    have hi := (List.getElem?_eq_some_iff.1 ht).1
    rw [← hprocessor] at hi
    have hleft : phase.rounds ≤ n := by omega
    rw [Function.iterate_succ_apply, hadvance, ih (getElem?_setTask hi _) hleft,
      complete_setTask, dismiss_setTask, hcomplete]

/-- A task runs to its end: all that comes of it is the outcome, which is recorded, and what the
fleet has become. -/
theorem finish_eq (agents : Agents) (now : Instant) (ht : f.processor.tasks[i]? = some t) :
    f.finish agents now i = (f.complete agents now t.job t.phase).2.dismiss now i t.job.id
      (f.complete agents now t.job t.phase).1 := by
  exact dismiss_iterate _ ht t.phase.rounds_le

theorem finish_of_none (agents : Agents) (now : Instant) (ht : f.processor.tasks[i]? = none) :
    f.finish agents now i = f := by
  have hadvance : f.advance agents now i = f := by rw [advance, ht]
  rw [finish, Function.iterate_fixed hadvance, run, List.foldl_cons]
  simp only [step, ht]
  rfl

end Fleet

end InferenceFleet
