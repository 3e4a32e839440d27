import InferenceFleet.Proofs.Fleet.Observed

/-!
# How jobs end

In a life of a fleet, whatever else happens meanwhile, the final record of a job is the one that the
account of its task leads to, and a record has a result, an error message and a node just as its
status says. A task that is left alone does end, with any agents.
-/

namespace InferenceFleet

namespace Fleet
variable {f : Fleet} {now : Instant} {t : Task} {i : Nat} {phase : Phase} {id : String} {j : Job}
  {served : List String} {cancelled : Bool}

/-! ### A task that is left alone -/

theorem ofItems_ne_interrupted (nodeId : String) (last : Option Chunk) (items : List Item) :
    Outcome.ofItems nodeId last items ≠ .interrupted := by
  induction items generalizing last with
  | nil => exact fun h => by cases h
  | cons x items ih =>
    cases x with
    | ok chunk => exact ih (some chunk)
    | error fault => exact fun h => by cases h

theorem outcome_ne_interrupted (agents : Agents) (nodeId target : String) (payload : Payload) :
    agents.outcome nodeId target payload ≠ .interrupted := by
  cases payload with
  | chat r =>
    simp only [Agents.outcome]
    split
    · exact ofItems_ne_interrupted _ _ _
    · exact fun h => by cases h
  | embeddings r =>
    simp only [Agents.outcome]
    split <;> exact fun h => by cases h

/-- The outcome can be recorded, and the job's record is one that it can be recorded in. -/
def Ends (id : String) (c : Outcome × Fleet) : Prop :=
  c.1 ≠ .interrupted ∧ ∃ k, c.2.queue.get? id = some k ∧ k.status.isTerminal = false

section Ends
variable {payload : Payload} {node : Node} (hget : f.queue.get? id = some j)
  (hopen : j.status.isTerminal = false)
include hget hopen

theorem ends_failed (fault : JobFault) : Ends id (.failed fault, f) :=
  ⟨fun h => (by cases h), j, hget, hopen⟩

theorem ends_connect (agents : Agents) (slot : Slot) (target : String)
    (dial : Except AgentFault Unit) :
    Ends id (call agents payload node (f.connect slot target dial)) := by
  have hqueue := (SameWork.connect f slot target dial).queue
  cases hconnect : f.connect slot target dial with
  | mk result g =>
    rw [hconnect] at hqueue
    rw [← hqueue] at hget
    cases result with
    | ok target => exact ⟨outcome_ne_interrupted _ _ _ _, j, hget, hopen⟩
    | error fault => exact ends_failed hget hopen _

theorem ends_place (agents : Agents) (now : Instant) {job : Job} (hid : job.id = id) :
    Ends id (f.place agents now job payload node) := by
  subst hid
  have hmove : j.status.canMoveTo .running = true := by
    revert hopen
    cases j.status <;> decide
  obtain ⟨hok, -, hassigned⟩ := Queue.advance_of_canMoveTo now
    (f := fun j => { j with assignedNode := some node.id }) (fun _ => rfl) hget hmove
  have hrunning := (hassigned job.id).trans (if_pos rfl)
  unfold place
  rw [Queue.assign]
  split <;> rename_i heq <;> rw [heq] at hok hrunning
  · exact ends_connect hrunning rfl agents _ _ _
  · cases hok

theorem ends_dispatch (agents : Agents) (now : Instant) {job : Job} (hid : job.id = id) :
    Ends id (f.dispatch agents now job payload) := by
  unfold dispatch
  split
  · exact ends_place hget hopen agents now hid
  · exact ends_failed hget hopen _

theorem ends_complete (agents : Agents) (now : Instant) {job : Job} (hid : job.id = id)
    (hphase : phase ≠ .ending .interrupted) : Ends id (f.complete agents now job phase) := by
  cases phase with
  | starting =>
    simp only [complete, execute]
    split
    · exact ends_dispatch hget hopen agents now hid
    · exact ends_failed hget hopen _
  | selecting payload => exact ends_dispatch hget hopen agents now hid
  | marking payload node => exact ends_place hget hopen agents now hid
  | seeking payload node =>
    exact ends_connect (f := { f with clients := (f.clients.slotFor node.id).2 }) hget hopen agents
      _ _ _
  | dialling payload node slot => exact ends_connect hget hopen agents _ _ _
  | asking payload node target => exact ⟨outcome_ne_interrupted _ _ _ _, j, hget, hopen⟩
  | waiting payload node target => exact ⟨outcome_ne_interrupted _ _ _ _, j, hget, hopen⟩
  | reading node last => exact ⟨fun h => (by cases h), j, hget, hopen⟩
  | ending outcome => exact ⟨fun h => hphase (congrArg _ h), j, hget, hopen⟩

end Ends

/-- A task that is left alone brings its job to a final record, unless it was broken off before. -/
theorem Owned.final_finish (ho : f.Owned served cancelled) (agents : Agents) (now : Instant)
    (ht : f.processor.tasks[i]? = some t) (hphase : t.phase ≠ .ending .interrupted) :
    ∃ k, (f.finish agents now i).queue.get? t.job.id = some k ∧ k.status.isTerminal = true := by
  obtain ⟨j, hget, hallows⟩ := ho.record_of_task (List.mem_of_getElem? ht)
  have hopen : j.status.isTerminal = false := by
    rcases hallows.assigned_or_running with hs | hs <;> rw [hs] <;> rfl
  obtain ⟨hends, k, hk, hopen'⟩ := ends_complete hget hopen agents now rfl hphase
  rw [finish_eq agents now ht]
  refine ⟨_, Outcome.get?_record hk hopen' _ now, ?_⟩
  cases houtcome : (f.complete agents now t.job t.phase).1 with
  | completed result => rfl
  | failed fault => rfl
  | interrupted => exact absurd houtcome hends

theorem run_finish (f : Fleet) (agents : Agents) (now : Instant) (i : Nat) :
    ∃ moves : List TaskMove, f.finish agents now i = f.run (moves.map (.task i)) := by
  have hadvance : ∀ g : Fleet, ∃ moves : List TaskMove,
      g.advance agents now i = g.run (moves.map (.task i)) := by
    intro g
    unfold advance
    split
    · exact ⟨_, rfl⟩
    · exact ⟨[], rfl⟩
  have hiterate : ∀ n, ∃ moves : List TaskMove,
      (fun g => advance g agents now i)^[n] f = f.run (moves.map (.task i)) := by
    intro n
    induction n with
    | zero => exact ⟨[], rfl⟩
    | succ n ih =>
      obtain ⟨moves, hmoves⟩ := ih
      obtain ⟨more, hmore⟩ := hadvance (f.run (moves.map (.task i)))
      refine ⟨moves ++ more, ?_⟩
      rw [Function.iterate_succ_apply', hmoves, hmore, List.map_append, run_append]
  obtain ⟨moves, hmoves⟩ := hiterate Phase.starting.rounds
  refine ⟨moves ++ [.record now], ?_⟩
  rw [finish, hmoves, List.map_append, run_append]
  rfl

end Fleet

namespace Life

open Fleet (Event)

variable {l : Life} {account : String → Account}

theorem fleet_run_moves (l : Life) (moves : List Move) :
    (l.run (moves.map .move)).fleet = l.fleet.run moves := by
  induction moves generalizing l with
  | nil => rfl
  | cons m moves ih => exact ih (l.after (.move m))

theorem run_append (l : Life) (events more : List Event) :
    l.run (events ++ more) = (l.run events).run more := List.foldl_append

/-- The records of the jobs have come as far as their accounts say. -/
structure Accounted (l : Life) (account : String → Account) : Prop where
  sound : l.Sound
  named : l.fleet.registry.Named
  upToDate : l.fleet.UpToDate
  told : ∀ id, l.fleet.Told id (account id)

namespace Accounted

theorem start (limit : Nat) : (Life.start limit).Accounted fun _ => {} where
  sound := .start limit
  named _ _ h := by cases h
  upToDate _ h := by cases h
  told _ := ⟨fun _ h => (by cases h), fun _ => .waiting rfl fun _ h => by cases h⟩

theorem after (h : l.Accounted account) (e : Event) :
    (l.after e).Accounted fun id => l.fleet.observed id (account id) e where
  sound := h.sound.after e
  named := Fleet.named_after h.named e
  upToDate := h.upToDate.after e
  told id := (h.told id).after h.sound.owned h.upToDate h.named e

theorem run (h : l.Accounted account) (events : List Event) :
    (l.run events).Accounted fun id => l.fleet.accountOf id (account id) events := by
  induction events generalizing l account with
  | nil => exact h
  | cons e events ih => exact ih (h.after e)

/-! ### What comes in a stream -/

/-- The account of the job's task after an event: items come only in a stream. -/
theorem streamed_observed (h : l.Accounted account) {id : String} (e : Event)
    (hitems : (account id).items ≠ [] → (account id).reply = some .streaming) :
    (l.fleet.observed id (account id) e).items ≠ [] →
      (l.fleet.observed id (account id) e).reply = some .streaming := by
  unfold Fleet.observed
  split
  · rename_i index m
    split
    · rename_i t ht
      split
      · rename_i hid
        obtain ⟨j, -, hfits⟩ := (h.told id).held t (List.mem_of_getElem? ht) hid
        unfold Fleet.observe
        split
        · rename_i hstep
          -- Only an answer and an item matter: before the one there are no items, and the other
          -- comes in a stream.
          cases Fleet.taskStepped_of_stepTask hstep with
          | refused hphase =>
            rw [hphase] at hfits
            exact fun hne => absurd hfits.2.1 hne
          | streaming hphase => exact fun _ => rfl
          | embedded hphase =>
            rw [hphase] at hfits
            exact fun hne => absurd hfits.2.1 hne
          | chunk hphase =>
            rw [hphase] at hfits
            obtain ⟨-, -, -, -, hreply, -⟩ := hfits
            exact fun _ => hreply
          | broken hphase =>
            rw [hphase] at hfits
            obtain ⟨-, -, -, -, hreply, -⟩ := hfits
            exact fun _ => hreply
          | dial hphase =>
            simp only [Account.add, hphase]
            exact hitems
          | noClient hphase =>
            simp only [Account.add, hphase]
            exact hitems
          | _ => exact hitems
        · exact hitems
      · exact hitems
    · exact hitems
  · exact hitems

theorem streamed_accountOf (h : l.Accounted account) (events : List Event) {id : String}
    (hitems : (account id).items ≠ [] → (account id).reply = some .streaming) :
    (l.fleet.accountOf id (account id) events).items ≠ [] →
      (l.fleet.accountOf id (account id) events).reply = some .streaming := by
  induction events generalizing l account with
  | nil => exact hitems
  | cons e events ih => exact ih (h.after e) (h.streamed_observed e hitems)

end Accounted

/-- A job whose node has streamed a failure is not completed, in any life. -/
theorem not_completed_of_fault (limit : Nat) (events : List Event) {id : String} {k : Job}
    {fault : AgentFault}
    (hitem : .error fault ∈ ((Fleet.ofLimit limit).accountOf id {} events).items)
    (hget : ((start limit).run events).fleet.queue.get? id = some k) : k.status ≠ .completed := by
  intro hcompleted
  have hstreamed : ((Fleet.ofLimit limit).accountOf id {} events).reply = some .streaming :=
    (Accounted.start limit).streamed_accountOf events (fun hne => absurd rfl hne)
      (List.ne_nil_of_mem hitem)
  have hfailed : ∀ {message}, ¬ k.IsFailed message := fun h => by
    have hstatus := h.status
    rw [hcompleted] at hstatus
    cases hstatus
  have htold := ((Accounted.start limit).run events).told id
  have htells : ((Fleet.ofLimit limit).accountOf id {} events).Tells k :=
    htold.tells hget (by rw [hcompleted]; rfl)
  cases htells with
  | unreadable _ _ _ _ h => exact hfailed h
  | noNode _ _ _ _ h => exact hfailed h
  | noClient _ _ _ h => exact hfailed h
  | refused _ _ _ h => exact hfailed h
  | broken _ _ _ _ h => exact hfailed h
  | streamed _ _ hitems =>
    rw [hitems] at hitem
    obtain ⟨chunk, -, hchunk⟩ := List.mem_map.1 hitem
    cases hchunk
  | embeddings _ hreply =>
    rw [hstreamed] at hreply
    cases hreply

/-- In every life of a fleet, however its steps are mixed: a final record is the one that the account
of the job's task leads to; a task that was not broken off can be left alone, with any agents, and
brings its job to a final record; and every record has a result, an error message and a node just as
its status says. -/
theorem jobs_end (limit : Nat) (events : List Event) :
    let l := (start limit).run events
    (∀ id k, l.fleet.queue.get? id = some k → k.status.isTerminal = true →
      ((Fleet.ofLimit limit).accountOf id {} events).Tells k) ∧
    (∀ agents now i t, l.fleet.processor.tasks[i]? = some t → t.phase ≠ .ending .interrupted →
      ∃ moves : List TaskMove,
        ((start limit).run (events ++ moves.map fun m => .move (.task i m))).fleet =
          l.fleet.finish agents now i ∧
        ∃ k, (l.fleet.finish agents now i).queue.get? t.job.id = some k ∧
          k.status.isTerminal = true) ∧
    ∀ id k, l.fleet.queue.get? id = some k → k.IsFilled := by
  intro l
  have h := (Accounted.start limit).run events
  refine ⟨fun id k hget hfinal => (h.told id).tells hget hfinal, fun agents now i t ht hphase => ?_,
    fun id k hget => (h.told id).isFilled hget⟩
  obtain ⟨moves, hmoves⟩ := l.fleet.run_finish agents now i
  refine ⟨moves, ?_, h.sound.owned.final_finish agents now ht hphase⟩
  rw [run_append, hmoves, ← fleet_run_moves, List.map_map]
  rfl

/-- A chat job whose node breaks off after a chunk; and the same job, left alone when its task has
started. -/
theorem jobs_end_broken :
    let now : Instant := .ofNanos 0
    let started : List Event := [.register now { node := some { id := "n2", hostname := "h" } },
      .register now { node := some { id := "n1", hostname := "h" } },
      .submit now ⟨"a", "chat_completion", "[\"m\",[[\"user\"]]]"⟩,
      .move .start, .move .acquire, .move .dequeue, .move (.assign now), .move .spawn]
    let served : List TaskMove := [.read, .select, .mark now, .seek, .dial (.ok ()), .ask,
      .reply .streaming, .item (.ok {}), .item (.error (.stream "cut")), .record now]
    let events : List Event := started ++ served.map fun m => .move (.task 0 m)
    let job : Job := .submitted "a" .chatCompletion "[\"m\",[[\"user\"]]]" now
    let k : Job := { job with
      status := .failed
      assignedNode := some "n1"
      errorMessage := some "dispatch to node n1 failed: stream from node agent broke: cut" }
    let agents : Agents := ⟨fun _ => .ok (), fun _ _ => .ok [], fun _ _ => .ok {}⟩
    ((start 1).run events).fleet.queue.get? "a" = some k ∧
      ((Fleet.ofLimit 1).accountOf "a" {} events).Tells k ∧ k.IsFilled ∧
      ∃ l, (((start 1).run started).fleet.finish agents now 0).queue.get? "a" = some l ∧
        l.status.isTerminal = true := by
  intro now started served events job k agents
  have hget : ((start 1).run events).fleet.queue.get? "a" = some k := by decide +kernel
  let t : Task := { job := job }
  have htask : ((start 1).run started).fleet.processor.tasks[0]? = some t := by decide +kernel
  obtain ⟨htells, -, hfilled⟩ := jobs_end 1 events
  obtain ⟨-, hfinish, -⟩ := jobs_end 1 started
  obtain ⟨-, -, hfinal⟩ := hfinish agents now 0 t htask (fun h => by cases h)
  exact ⟨hget, htells "a" k hget rfl, hfilled "a" k hget, hfinal⟩

end Life

end InferenceFleet
