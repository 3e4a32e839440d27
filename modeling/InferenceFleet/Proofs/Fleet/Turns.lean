import InferenceFleet.Proofs.Fleet.Uninterrupted

/-!
# A fleet in turns

`Fleet.take` is one operation of the control plane, or one job that is taken and brought to its end,
with nothing else in between, and the answer to it. A dial of a target has the same result whenever
it is made; what agents answer may differ from turn to turn. `Fleet.takeAnew` is the turn of a fleet
that keeps no clients. Two fleets are `Alike` if they differ in their clients only.
-/

namespace InferenceFleet

namespace Fleet

inductive Turn where
  | submit (now : Instant) (r : Submission)
  | register (now : Instant) (r : RegisterRequest)
  | heartbeat (now : Instant) (r : HeartbeatRequest)
  | update (now : Instant) (r : UpdateRequest)
  | sweep (now : Instant) (timeout : Nat)
  | chat (agents : Agents) (r : ChatRequest)
  | embeddings (agents : Agents) (r : EmbeddingsRequest)
  /-- The next job is taken, if one waits, and brought to its end. -/
  | work (agents : Agents) (now : Instant)

inductive Answer where
  | receipt (answer : Except Refusal SubmissionReceipt)
  | ack (answer : Except Refusal Ack)
  /-- The ids of the nodes that were removed. -/
  | removed (ids : List String)
  | items (answer : Except Refusal (List Item))
  | vectors (answer : Except Refusal EmbeddingsResponse)
  /-- The record of the job that was brought to its end. -/
  | worked (job : Option Job)

section Definitions
variable (f : Fleet) (agents : Agents) (now : Instant) (dial : String → Except AgentFault Unit)

/-- The loop takes the next job, if one waits, and starts its task. -/
def takeUp : Fleet := f.run [.start, .acquire, .dequeue, .assign now, .spawn]

def work : Fleet := ((f.takeUp now).finish agents now f.processor.tasks.length).run [.idle]

def take : Turn → Answer × Fleet
  | .submit now r => (f.submitJob now r).map .receipt id
  | .register now r => (f.registerNode now r).map .ack id
  | .heartbeat now r => (f.heartbeat now r).map .ack id
  | .update now r => (f.updateNode now r).map .ack id
  | .sweep now timeout => (f.sweep now timeout).map .removed id
  | .chat agents r => (f.chat { agents with dial } r).map .items id
  | .embeddings agents r => (f.embeddings { agents with dial } r).map .vectors id
  | .work agents now =>
    let g := f.work { agents with dial } now
    (.worked (f.queue.dequeue.1 >>= fun job => g.queue.get? job.id), g)

/-- A turn of a fleet that has no clients left from earlier turns. -/
def takeAnew (turn : Turn) : Answer × Fleet :=
  ({ f with clients := .empty } : Fleet).take dial turn

/-- The answers to some turns, and the fleet after them. -/
def serve (f : Fleet) : List Turn → List Answer × Fleet
  | [] => ([], f)
  | turn :: turns =>
    let (answer, f) := f.take dial turn
    let (answers, f) := f.serve turns
    (answer :: answers, f)

def serveAnew (f : Fleet) : List Turn → List Answer × Fleet
  | [] => ([], f)
  | turn :: turns =>
    let (answer, f) := f.takeAnew dial turn
    let (answers, f) := f.serveAnew turns
    (answer :: answers, f)

end Definitions

/-! ### Fleets that differ in their clients -/

/-- The fleet with other clients, and with other dials behind it. -/
def withClients (f : Fleet) (c : Clients) (dialled : List String) : Fleet :=
  { f with clients := c, dialled }

/-- The two fleets are the same but for their clients and what was dialled. -/
def Alike (f g : Fleet) : Prop := ∃ c dialled, g = f.withClients c dialled

namespace Alike
variable {f g h : Fleet}

theorem refl (f : Fleet) : f.Alike f := ⟨f.clients, f.dialled, rfl⟩

theorem symm (hfg : f.Alike g) : g.Alike f := by
  obtain ⟨c, dialled, rfl⟩ := hfg
  exact ⟨f.clients, f.dialled, rfl⟩

theorem trans (hfg : f.Alike g) (hgh : g.Alike h) : f.Alike h := by
  obtain ⟨c, dialled, rfl⟩ := hfg
  obtain ⟨c', dialled', rfl⟩ := hgh
  exact ⟨c', dialled', rfl⟩

end Alike

/-! ### Taking up a job -/

/-- The steps of the loop between the tasks that it starts. -/
def loopMoves (now : Instant) : List Move := [.start, .acquire, .dequeue, .assign now, .idle]

/-- A step of the loop is the same whatever the clients are. -/
theorem step_loop (f : Fleet) {m : Move} {now : Instant} (hm : m ∈ loopMoves now) :
    ∃ queue processor, (∀ c dialled,
      ((f.withClients c dialled).step m).getD (f.withClients c dialled) =
        ({ f with queue, processor } : Fleet).withClients c dialled) ∧
      processor.tasks = f.processor.tasks := by
  simp only [loopMoves, List.mem_cons, List.not_mem_nil, or_false] at hm
  rcases hm with rfl | rfl | rfl | rfl | rfl <;> simp only [step, withClients]
  · split
    · exact ⟨_, _, fun _ _ => rfl, rfl⟩
    · exact ⟨_, _, fun _ _ => rfl, rfl⟩
  · split
    · exact ⟨_, _, fun _ _ => rfl, rfl⟩
    · exact ⟨_, _, fun _ _ => rfl, rfl⟩
  · split
    · split
      · exact ⟨_, _, fun _ _ => rfl, rfl⟩
      · exact ⟨_, _, fun _ _ => rfl, rfl⟩
    · exact ⟨_, _, fun _ _ => rfl, rfl⟩
  · split
    · split
      · exact ⟨_, _, fun _ _ => rfl, rfl⟩
      · exact ⟨_, _, fun _ _ => rfl, rfl⟩
    · exact ⟨_, _, fun _ _ => rfl, rfl⟩
  · split
    · exact ⟨_, _, fun _ _ => rfl, rfl⟩
    · exact ⟨_, _, fun _ _ => rfl, rfl⟩

theorem run_loop (f : Fleet) (now : Instant) {moves : List Move}
    (hmoves : ∀ m ∈ moves, m ∈ loopMoves now) :
    ∃ queue processor, (∀ c dialled, (f.withClients c dialled).run moves =
        ({ f with queue, processor } : Fleet).withClients c dialled) ∧
      processor.tasks = f.processor.tasks := by
  induction moves generalizing f with
  | nil => exact ⟨f.queue, f.processor, fun _ _ => rfl, rfl⟩
  | cons m moves ih =>
    obtain ⟨queue, processor, hstep, htasks⟩ := f.step_loop (hmoves m List.mem_cons_self)
    obtain ⟨queue', processor', hrun, htasks'⟩ := ih { f with queue, processor }
      fun m hm => hmoves m (List.mem_cons_of_mem _ hm)
    refine ⟨queue', processor', fun c dialled => ?_, htasks'.trans htasks⟩
    rw [run, List.foldl_cons, hstep]
    exact hrun c dialled

theorem Alike.run_loop {f g : Fleet} (hfg : f.Alike g) (now : Instant) {moves : List Move}
    (hmoves : ∀ m ∈ moves, m ∈ loopMoves now) : (f.run moves).Alike (g.run moves) := by
  obtain ⟨c, dialled, rfl⟩ := hfg
  obtain ⟨queue, processor, hrun, -⟩ := f.run_loop now hmoves
  have hself : f.run moves = { f with queue, processor } := hrun f.clients f.dialled
  rw [hself, hrun]
  exact ⟨c, dialled, rfl⟩

/-- Whatever the clients are, a task starts, or no job waits. -/
theorem takeUp_cases (f : Fleet) (now : Instant) : ∃ queue processor,
    (∀ c dialled, (f.withClients c dialled).takeUp now =
      ({ f with queue, processor } : Fleet).withClients c dialled) ∧
    (processor.tasks = f.processor.tasks ∨
      ∃ t : Task, t.phase = .starting ∧ processor.tasks = f.processor.tasks ++ [t]) := by
  have hmoves : ∀ m ∈ [Move.start, .acquire, .dequeue, .assign now], m ∈ loopMoves now := by
    simp [loopMoves]
  obtain ⟨queue, processor, hrun, htasks⟩ := f.run_loop now hmoves
  have hspawn : ∀ c dialled, (f.withClients c dialled).takeUp now =
      (({ f with queue, processor } : Fleet).withClients c dialled).run [.spawn] := by
    intro c dialled
    rw [← hrun]
    rfl
  cases hloop : processor.loop with
  | marked job =>
    let t : Task := { job, cancelled := processor.cancelled }
    refine ⟨queue, { processor with loop := .acquiring, tasks := processor.tasks ++ [t] },
      fun c dialled => ?_, .inr ⟨t, rfl, by rw [htasks]⟩⟩
    rw [hspawn]
    simp only [run, List.foldl_cons, List.foldl_nil, step, withClients, hloop]
    rfl
  | _ =>
    refine ⟨queue, processor, fun c dialled => ?_, .inl htasks⟩
    rw [hspawn]
    simp only [run, List.foldl_cons, List.foldl_nil, step, withClients, hloop]
    rfl

end Fleet

end InferenceFleet
