import InferenceFleet.Proofs.Fleet.Paths
import InferenceFleet.Proofs.Fleet.TaskSteps

/-!
# What happened to a job

An `Account` keeps what the task of a job met with outside: the nodes that were registered when
one was selected, what the wait for its client brought, and what the agent answered.
`Account.Tells` says which final record that leads to, and `Account.Fits` how far the task and the
record have come on the way there. A step of the task keeps them in line (`Account.Fits.step`).
-/

namespace InferenceFleet

structure Account where
  /-- The nodes that were registered when one was selected. -/
  nodes : Option (List Node) := none
  /-- The client that the task got, or why it got none. -/
  client : Option (Except AgentFault String) := none
  reply : Option Reply := none
  /-- The items of the chat stream so far. -/
  items : List Item := []
  /-- The targets that were dialled in steps of the task. -/
  dialled : List String := []

namespace Job

/-- No task has come to running the job. -/
structure IsWaiting (j : Job) : Prop where
  status : j.status = .pending ∨ j.status = .assigned
  assignedNode : j.assignedNode = none
  result : j.result = none
  errorMessage : j.errorMessage = none

structure IsRunning (j : Job) (nodeId : String) : Prop where
  status : j.status = .running
  assignedNode : j.assignedNode = some nodeId
  result : j.result = none
  errorMessage : j.errorMessage = none

def IsOpen (j : Job) : Prop := j.IsWaiting ∨ ∃ nodeId, j.IsRunning nodeId

/-- The record has a result, an error message and a node just as its status says. -/
structure IsFilled (j : Job) : Prop where
  result : j.result.isSome = true ↔ j.status = .completed
  errorMessage : j.errorMessage.isSome = true ↔ j.status = .failed
  assigned : j.status = .running ∨ j.status = .completed → j.assignedNode.isSome = true
  unassigned : j.status = .pending ∨ j.status = .assigned → j.assignedNode = none

variable {j : Job} {nodeId message result : String}

theorem IsWaiting.isFilled (h : j.IsWaiting) : j.IsFilled := by
  obtain ⟨hstatus, hnode, hresult, hmessage⟩ := h
  rcases hstatus with hs | hs <;>
    exact ⟨by simp [hresult, hs], by simp [hmessage, hs], by simp [hs], fun _ => hnode⟩

theorem IsRunning.isFilled (h : j.IsRunning nodeId) : j.IsFilled := by
  obtain ⟨hs, hnode, hresult, hmessage⟩ := h
  exact ⟨by simp [hresult, hs], by simp [hmessage, hs], by simp [hnode], by simp [hs]⟩

theorem IsFailed.isFilled (h : j.IsFailed message) : j.IsFilled := by
  obtain ⟨hs, hmessage, hresult⟩ := h
  exact ⟨by simp [hresult, hs], by simp [hmessage, hs], by simp [hs], by simp [hs]⟩

theorem IsCompleted.isFilled (h : j.IsCompleted result) (hnode : j.assignedNode = some nodeId) :
    j.IsFilled := by
  obtain ⟨hs, hresult, hmessage⟩ := h
  exact ⟨by simp [hresult, hs], by simp [hmessage, hs], by simp [hnode], by simp [hs]⟩

end Job

namespace Account

/-- What a step adds to the account of the task that takes it. -/
def add (a : Account) (f : Fleet) (t : Task) : TaskMove → Account
  | .select => { a with nodes := some f.registry.list }
  | .dial result =>
    match t.phase with
    | .dialling _ node slot =>
      { a with client := some (f.connect slot node.agentTarget result).1 }
    | _ => a
  | .reply r => { a with reply := some r }
  | .item i => { a with items := a.items ++ [i] }
  | _ => a

/-- The payload of the job could be read, and the node is the one selected: of the nodes registered
then, none has a smaller id. -/
structure Chose (a : Account) (k : Job) (payload : Payload) (node : Node) : Prop where
  read : Payload.read k = .ok payload
  nodes : ∃ nodes, a.nodes = some nodes ∧ node ∈ nodes ∧ ∀ m ∈ nodes, node.id ≤ m.id

/-- The task got the client at `target` of the node that is on record. -/
structure Reached (a : Account) (k : Job) (payload : Payload) (node : Node) (target : String) :
    Prop where
  chose : a.Chose k payload node
  client : a.client = some (.ok target)

/-- The final record of the job is the one that the account leads to. -/
inductive Tells (a : Account) (k : Job) : Prop where
  | unreadable {fault : Json.Fault} :
    Payload.read k = .error (.invalidPayload k.kind fault) → a.nodes = none → a.dialled = [] →
    k.assignedNode = none →
    k.IsFailed ("invalid " ++ k.kind.name ++ " payload: " ++ fault.message) → Tells a k
  | noNode {payload : Payload} :
    Payload.read k = .ok payload → a.nodes = some [] → a.dialled = [] → k.assignedNode = none →
    k.IsFailed ("no node available for model " ++ payload.model) → Tells a k
  | noClient {payload : Payload} {node : Node} {source : AgentFault} :
    a.Chose k payload node → a.client = some (.error source) → k.assignedNode = some node.id →
    k.IsFailed ("dispatch to node " ++ node.id ++ " failed: " ++ source.message) → Tells a k
  | refused {payload : Payload} {node : Node} {target : String} {source : AgentFault} :
    a.Reached k payload node target → a.reply = some (.refused source) →
    k.assignedNode = some node.id →
    k.IsFailed ("dispatch to node " ++ node.id ++ " failed: " ++ source.message) → Tells a k
  | broken {payload : Payload} {node : Node} {target : String} {chunks : List Chunk}
    {source : AgentFault} :
    a.Reached k payload node target → a.reply = some .streaming →
    a.items = chunks.map .ok ++ [.error source] → k.assignedNode = some node.id →
    k.IsFailed ("dispatch to node " ++ node.id ++ " failed: " ++ source.message) → Tells a k
  | streamed {payload : Payload} {node : Node} {target : String} {chunks : List Chunk} :
    a.Reached k payload node target → a.reply = some .streaming → a.items = chunks.map .ok →
    k.assignedNode = some node.id →
    k.IsCompleted ((chunks.getLast?.map Chunk.shape.encode).getD "") → Tells a k
  | embeddings {payload : Payload} {node : Node} {target : String} {r : EmbeddingsResponse} :
    a.Reached k payload node target → a.reply = some (.embeddings r) →
    k.assignedNode = some node.id → k.IsCompleted (EmbeddingsResponse.shape.encode r) → Tells a k

/-- A task has come to the phase, with this account, and the record of its job is `j`. -/
def Fits (a : Account) (j : Job) : Phase → Prop
  | .starting => a = {} ∧ j.IsWaiting
  | .selecting payload => a = {} ∧ j.IsWaiting ∧ Payload.read j = .ok payload
  | .marking payload node => a.Chose j payload node ∧ a.items = [] ∧ j.IsWaiting
  | .seeking payload node | .dialling payload node _ =>
    a.Chose j payload node ∧ a.items = [] ∧ j.IsRunning node.id
  | .asking payload node target | .waiting payload node target =>
    a.Reached j payload node target ∧ a.items = [] ∧ j.IsRunning node.id
  | .reading node last => ∃ payload target, ∃ chunks : List Chunk,
    a.Reached j payload node target ∧ a.reply = some .streaming ∧ a.items = chunks.map .ok ∧
      last = chunks.getLast? ∧ j.IsRunning node.id
  | .ending .interrupted => ∃ nodeId, j.IsRunning nodeId
  | .ending outcome => j.IsOpen ∧ ∀ now, a.Tells (outcome.note now j)

/-- The record of the job, if it has one, fits the account when no task has the job. -/
inductive Rests (a : Account) : Option Job → Prop where
  | waiting {record : Option Job} :
    a = {} → (∀ j, record = some j → j.IsWaiting) → Rests a record
  | final {k : Job} : k.status.isTerminal = true → a.Tells k → Rests a (some k)
  | brokenOff {k : Job} {nodeId : String} : k.IsRunning nodeId → Rests a (some k)

end Account

namespace Fleet

/-- The account of the task `t` after one of its steps; nothing comes of a step that it cannot
take. -/
def observe (f : Fleet) (t : Task) (m : TaskMove) (a : Account) : Account :=
  match f.stepTask t m with
  | some (g, _) =>
    { a.add f t m with dialled := a.dialled ++ g.dialled.drop f.dialled.length }
  | none => a

variable {f g : Fleet} {t : Task} {m : TaskMove} {phase : Phase} {a : Account} {payload : Payload}
  {node : Node}

theorem observe_of_step (h : f.stepTask t m = some (g, phase)) (hdialled : g.dialled = f.dialled) :
    f.observe t m a = a.add f t m := by
  have hsame : (a.add f t m).dialled = a.dialled := by
    cases m <;> simp only [Account.add]
    split <;> rfl
  simp only [observe, h]
  rw [hdialled, List.drop_length, List.append_nil, ← hsame]

theorem observe_dial {slot : Slot} {result : Except AgentFault Unit}
    (hphase : t.phase = .dialling payload node slot)
    (h : f.stepTask t (.dial result) = some (g, phase)) :
    f.observe t (.dial result) a =
      { a with
        client := some (f.connect slot node.agentTarget result).1
        dialled := a.dialled ++ g.dialled.drop f.dialled.length } := by
  simp only [observe, h, Account.add, hphase]

end Fleet

namespace Account
variable {a b : Account} {j k : Job} {payload : Payload} {node : Node} {target : String}

theorem Chose.congr (h : a.Chose j payload node) (hnodes : b.nodes = a.nodes)
    (hread : Payload.read k = Payload.read j) : b.Chose k payload node :=
  ⟨hread.trans h.read, hnodes ▸ h.nodes⟩

theorem Reached.congr (h : a.Reached j payload node target) (hnodes : b.nodes = a.nodes)
    (hclient : b.client = a.client) (hread : Payload.read k = Payload.read j) :
    b.Reached k payload node target :=
  ⟨h.chose.congr hnodes hread, hclient.trans h.client⟩

end Account

theorem Job.IsOpen.isTerminal {j : Job} (h : j.IsOpen) : j.status.isTerminal = false := by
  rcases h with hwaiting | ⟨nodeId, hrunning⟩
  · rcases hwaiting.status with hs | hs <;> rw [hs] <;> rfl
  · rw [hrunning.status]
    rfl

/-- A record that is not final and not running is that of a job that waits. -/
theorem Account.Rests.waiting_of_status {a : Account} {j : Job} (h : a.Rests (some j))
    (hstatus : j.status = .pending ∨ j.status = .assigned) : a = {} ∧ j.IsWaiting := by
  cases h with
  | waiting ha hj => exact ⟨ha, hj j rfl⟩
  | final hfinal => rcases hstatus with hs | hs <;> rw [hs] at hfinal <;> cases hfinal
  | brokenOff hrunning =>
    rw [hrunning.status] at hstatus
    rcases hstatus with hs | hs <;> cases hs

theorem Payload.read_congr {j k : Job} (hkind : k.kind = j.kind)
    (hpayload : k.payload = j.payload) :
    Payload.read k = Payload.read j := by
  rw [Payload.read, Payload.read, hkind, hpayload]

theorem Payload.read_error {j : Job} {fault : JobFault} (h : Payload.read j = .error fault) :
    ∃ source, fault = .invalidPayload j.kind source := by
  unfold Payload.read at h
  cases hkind : j.kind <;> rw [hkind] at h <;> simp only at h <;> split at h <;> cases h
  · exact ⟨_, rfl⟩
  · exact ⟨_, rfl⟩

theorem Outcome.read_note (o : Outcome) (now : Instant) (j : Job) :
    Payload.read (o.note now j) = Payload.read j := by
  cases o <;> rfl

theorem Account.Tells.isFilled {a : Account} {k : Job} (h : a.Tells k) : k.IsFilled := by
  cases h with
  | unreadable _ _ _ _ hfailed => exact hfailed.isFilled
  | noNode _ _ _ _ hfailed => exact hfailed.isFilled
  | noClient _ _ _ hfailed => exact hfailed.isFilled
  | refused _ _ _ hfailed => exact hfailed.isFilled
  | broken _ _ _ _ hfailed => exact hfailed.isFilled
  | streamed _ _ _ hnode hcompleted => exact hcompleted.isFilled hnode
  | embeddings _ _ hnode hcompleted => exact hcompleted.isFilled hnode

theorem Account.Fits.isOpen {a : Account} {j : Job} {p : Phase} (h : a.Fits j p) : j.IsOpen := by
  cases p with
  | starting => exact .inl h.2
  | selecting payload => exact .inl h.2.1
  | marking payload node => exact .inl h.2.2
  | seeking payload node => exact .inr ⟨_, h.2.2⟩
  | dialling payload node slot => exact .inr ⟨_, h.2.2⟩
  | asking payload node target => exact .inr ⟨_, h.2.2⟩
  | waiting payload node target => exact .inr ⟨_, h.2.2⟩
  | reading node last =>
    obtain ⟨-, -, -, -, -, -, -, hrunning⟩ := h
    exact .inr ⟨_, hrunning⟩
  | ending outcome =>
    cases outcome with
    | completed result => exact h.1
    | failed fault => exact h.1
    | interrupted => exact .inr h

theorem Outcome.get?_record_of_ne (o : Outcome) (q : Queue) (now : Instant) {i id : String}
    (hi : i ≠ id) : (o.record q now id).2.get? i = q.get? i := by
  cases o with
  | completed result => exact Queue.get?_advance_of_ne hi q now _ fun _ => rfl
  | failed fault => exact Queue.get?_advance_of_ne hi q now _ fun _ => rfl
  | interrupted => rfl

theorem Job.IsWaiting.assign {q : Queue} {j : Job} (h : j.IsWaiting)
    (hget : q.get? j.id = some j) (now : Instant) (nodeId : String) :
    (q.assign now j.id .running nodeId).1 = .ok () ∧ ∀ i,
      (q.assign now j.id .running nodeId).2.get? i = if i = j.id then
        some { j with status := .running, updatedAt := now, assignedNode := some nodeId }
      else q.get? i := by
  have hmove : j.status.canMoveTo .running = true := by
    rcases h.status with hs | hs <;> rw [hs] <;> rfl
  obtain ⟨hok, -, hassigned⟩ := Queue.advance_of_canMoveTo now
    (f := fun j => { j with assignedNode := some nodeId }) (fun _ => rfl) hget hmove
  exact ⟨hok, hassigned⟩

/-- The task takes a step: its account still fits, and so does the record that it leaves. -/
theorem Account.Fits.step {f g : Fleet} {t : Task} {m : TaskMove} {phase : Phase} {a : Account}
    {j : Job} (h : a.Fits j t.phase) (hget : f.queue.get? t.job.id = some j)
    (hread : Payload.read t.job = Payload.read j) (hnamed : f.registry.Named)
    (hstep : f.stepTask t m = some (g, phase)) :
    ∃ k, g.queue.get? t.job.id = some k ∧ (f.observe t m a).Fits k phase := by
  have hid := Queue.id_of_get? hget
  have hquiet := fun hdialled => Fleet.observe_of_step (a := a) hstep hdialled
  -- a record on which the outcome has been noted has the same payload
  have hnote := fun (o : Outcome) now => o.read_note now j
  cases Fleet.taskStepped_of_stepTask hstep with
  | read hphase hpayload =>
    rw [hphase] at h
    obtain ⟨rfl, hwaiting⟩ := h
    rw [hquiet rfl]
    exact ⟨j, hget, rfl, hwaiting, hread ▸ hpayload⟩
  | unreadable hphase hpayload =>
    rw [hphase] at h
    obtain ⟨rfl, hwaiting⟩ := h
    rw [hread] at hpayload
    rw [hquiet rfl]
    obtain ⟨source, rfl⟩ := Payload.read_error hpayload
    exact ⟨j, hget, .inl hwaiting, fun now => .unreadable ((hnote _ now).trans hpayload) rfl rfl
      hwaiting.assignedNode ⟨rfl, rfl, rfl⟩⟩
  | select hphase hselect =>
    rw [hphase] at h
    obtain ⟨rfl, hwaiting, hpayload⟩ := h
    rw [hquiet rfl]
    obtain ⟨hnode, hleast⟩ := Registry.select_ok hnamed hselect
    exact ⟨j, hget, ⟨hpayload, _, rfl, Registry.mem_list.2 ⟨_, hnode⟩, hleast⟩, rfl, hwaiting⟩
  | noNode hphase hselect =>
    rw [hphase] at h
    obtain ⟨rfl, hwaiting, hpayload⟩ := h
    rw [hquiet rfl]
    obtain ⟨hempty, hmodel⟩ := Registry.select_error hselect
    refine ⟨j, hget, .inl hwaiting, fun now => ?_⟩
    refine .noNode ((hnote _ now).trans hpayload) (congrArg some hempty) rfl
      hwaiting.assignedNode ⟨rfl, ?_, rfl⟩
    rw [← hmodel]
    rfl
  | @mark payload node now queue hphase hassign =>
    rw [hphase] at h
    obtain ⟨hchose, hitems, hwaiting⟩ := h
    obtain ⟨-, hassigned⟩ := hwaiting.assign (hid ▸ hget) now node.id
    rw [hid, hassign] at hassigned
    rw [hquiet rfl]
    exact ⟨_, (hassigned t.job.id).trans (if_pos rfl), hchose.congr rfl rfl, hitems,
      rfl, rfl, hwaiting.result, hwaiting.errorMessage⟩
  | @unmarked payload node now fault queue hphase hassign =>
    rw [hphase] at h
    obtain ⟨-, -, hwaiting⟩ := h
    obtain ⟨hok, -⟩ := hwaiting.assign (hid ▸ hget) now node.id
    rw [hid, hassign] at hok
    cases hok
  | seek hphase =>
    rw [hphase] at h
    rw [hquiet rfl]
    exact ⟨j, hget, h⟩
  | @dial payload node slot result target g hphase hconnect =>
    rw [hphase] at h
    obtain ⟨hchose, hitems, hrunning⟩ := h
    have hwork := Fleet.SameWork.connect f slot node.agentTarget result
    rw [hconnect] at hwork
    rw [Fleet.observe_dial hphase hstep, hconnect, hwork.queue]
    exact ⟨j, hget, ⟨hchose.congr rfl rfl, rfl⟩, hitems, hrunning⟩
  | @noClient payload node slot result fault g hphase hconnect =>
    rw [hphase] at h
    obtain ⟨hchose, -, hrunning⟩ := h
    have hwork := Fleet.SameWork.connect f slot node.agentTarget result
    rw [hconnect] at hwork
    rw [Fleet.observe_dial hphase hstep, hconnect, hwork.queue]
    exact ⟨j, hget, .inr ⟨_, hrunning⟩, fun now => .noClient
      (hchose.congr rfl (hnote _ now)) rfl hrunning.assignedNode ⟨rfl, rfl, rfl⟩⟩
  | ask hphase =>
    rw [hphase] at h
    rw [hquiet rfl]
    exact ⟨j, hget, h⟩
  | refused hphase =>
    rw [hphase] at h
    obtain ⟨hreached, -, hrunning⟩ := h
    rw [hquiet rfl]
    exact ⟨j, hget, .inr ⟨_, hrunning⟩, fun now => .refused
      (hreached.congr rfl rfl (hnote _ now)) rfl hrunning.assignedNode ⟨rfl, rfl, rfl⟩⟩
  | streaming hphase =>
    rw [hphase] at h
    obtain ⟨hreached, hitems, hrunning⟩ := h
    rw [hquiet rfl]
    exact ⟨j, hget, _, _, [], hreached.congr rfl rfl rfl, rfl, hitems, rfl, hrunning⟩
  | embedded hphase =>
    rw [hphase] at h
    obtain ⟨hreached, -, hrunning⟩ := h
    rw [hquiet rfl]
    exact ⟨j, hget, .inr ⟨_, hrunning⟩, fun now => .embeddings
      (hreached.congr rfl rfl (hnote _ now)) rfl hrunning.assignedNode ⟨rfl, rfl, rfl⟩⟩
  | @chunk node last chunk hphase =>
    rw [hphase] at h
    obtain ⟨payload, target, chunks, hreached, hreply, hitems, -, hrunning⟩ := h
    rw [hquiet rfl]
    refine ⟨j, hget, payload, target, chunks ++ [chunk], hreached.congr rfl rfl rfl, hreply, ?_,
      ?_, hrunning⟩
    · simp only [add, hitems, List.map_append, List.map_cons, List.map_nil]
    · rw [List.getLast?_concat]
  | broken hphase =>
    rw [hphase] at h
    obtain ⟨payload, target, chunks, hreached, hreply, hitems, -, hrunning⟩ := h
    rw [hquiet rfl]
    exact ⟨j, hget, .inr ⟨_, hrunning⟩, fun now => .broken
      (hreached.congr rfl rfl (hnote _ now)) hreply (congrArg (· ++ _) hitems)
      hrunning.assignedNode ⟨rfl, rfl, rfl⟩⟩
  | «over» hphase =>
    rw [hphase] at h
    obtain ⟨payload, target, chunks, hreached, hreply, hitems, rfl, hrunning⟩ := h
    rw [hquiet rfl]
    exact ⟨j, hget, .inr ⟨_, hrunning⟩, fun now => .streamed
      (hreached.congr rfl rfl (hnote _ now)) hreply hitems hrunning.assignedNode ⟨rfl, rfl, rfl⟩⟩
  | interrupt hphase =>
    rw [hphase] at h
    obtain ⟨-, -, -, -, -, -, -, hrunning⟩ := h
    exact ⟨j, hget, _, hrunning⟩

end InferenceFleet
