import InferenceFleet.Proofs.Fleet.Records

/-!
# What a shutdown leaves of a chat

The node of a chat job sends a stream, and a shutdown may be noticed before any of its items and
before its end. `Fleet.Streams` says that the task of the job reads a given stream in the course of
the events, and `Fleet.Hears` that it has not passed over any of it. A completed job has the last
chunk of the whole stream, a failed one its first failure or what kept the stream from beginning
(`Account.Blames`), and a job that was broken off keeps the record of a running one
(`Fleet.BrokenOff`).
-/

namespace InferenceFleet

theorem Payload.kind_of_read_embeddings {j : Job} {r : EmbeddingsRequest}
    (h : Payload.read j = .ok (.embeddings r)) : j.kind = .embeddings := by
  unfold Payload.read at h
  cases hkind : j.kind with
  | embeddings => rfl
  | chatCompletion =>
    rw [hkind] at h
    simp only at h
    split at h <;> cases h

/-- What is read in the move is the next item of the stream `s` after `items`, and the stream is
over only where `s` ends. -/
def TaskMove.Follows (items s : List Item) : TaskMove → Prop
  | .item i => items ++ [i] <+: s
  | .over => items = s
  | _ => True

instance (items s : List Item) (m : TaskMove) : Decidable (m.Follows items s) :=
  match m with
  | .item i => inferInstanceAs (Decidable (items ++ [i] <+: s))
  | .over => inferInstanceAs (Decidable (items = s))
  | .read | .select | .mark _ | .seek | .dial _ | .ask | .reply _ | .interrupt | .record _ =>
    .isTrue trivial

namespace Fleet
variable {f g : Fleet} {e : Event} {m : Move} {id : String} {s : List Item} {a : Account}
  {j k : Job} {t : Task} {x : TaskMove} {phase : Phase} {served : List String} {cancelled : Bool}

/-- In the event the task of the job `id`, which has read the items in its account `a`, reads on in
the stream `s` if it reads. -/
def Follows (f : Fleet) (id : String) (s : List Item) (a : Account) : Event → Prop
  | .move (.task index m) => ∀ t ∈ f.processor.tasks[index]?, t.job.id = id →
    (f.stepTask t m).isSome = true → m.Follows a.items s
  | _ => True

instance (f : Fleet) (id : String) (s : List Item) (a : Account) (e : Event) :
    Decidable (f.Follows id s a e) :=
  match e with
  | .move (.task index m) => inferInstanceAs (Decidable (∀ t ∈ f.processor.tasks[index]?,
      t.job.id = id → (f.stepTask t m).isSome = true → m.Follows a.items s))
  | .move .start | .move .acquire | .move .dequeue | .move .idle | .move (.assign _) | .move .spawn
  | .move .cancel | .move .stop | .submit .. | .register .. | .heartbeat .. | .update ..
  | .sweepNode .. | .chat .. | .embeddings .. => .isTrue trivial

/-- In the events the node of the job `id` sends the stream `s`. -/
def Streams (f : Fleet) (id : String) (s : List Item) (a : Account) : List Event → Prop
  | [] => True
  | e :: events => f.Follows id s a e ∧ (f.after e).Streams id s (f.observed id a e) events

instance decidableStreams (f : Fleet) (id : String) (s : List Item) (a : Account) :
    (events : List Event) → Decidable (f.Streams id s a events)
  | [] => .isTrue trivial
  | e :: events =>
    have := decidableStreams (f.after e) id s (f.observed id a e) events
    inferInstanceAs (Decidable (_ ∧ _))

theorem stepTask_ending {outcome : Outcome} (h : t.phase = .ending outcome) (m : TaskMove) :
    f.stepTask t m = none := by
  cases m <;> simp [stepTask, h]

/-! ### What the task hears -/

theorem connect_error {slot : Slot} {target : String} {dial : Except AgentFault Unit}
    {source : AgentFault} (h : (f.connect slot target dial).1 = .error source) :
    dial = .error source := by
  unfold connect at h
  split at h
  · cases h
  · cases dial with
    | error fault => exact congrArg Except.error (Except.error.inj h)
    | ok _ => cases h

/-- Whatever the account of a job has come to say, it said at first or a task's step made it so. -/
theorem of_accountOf {P : Account → Prop} {Q : TaskMove → Prop}
    (hstep : ∀ (f : Fleet) t m a, P (f.observe t m a) → P a ∨ Q m) (events : List Event)
    (h : P (f.accountOf id a events)) : P a ∨ ∃ i m, .move (.task i m) ∈ events ∧ Q m := by
  induction events generalizing f a with
  | nil => exact .inl h
  | cons e events ih =>
    rcases ih h with hfirst | ⟨i, m, hmem, hm⟩
    · have hobserved : P a ∨ ∃ i m, e = .move (.task i m) ∧ Q m := by
        unfold observed at hfirst
        split at hfirst
        · rename_i index m
          split at hfirst
          · split at hfirst
            · exact (hstep _ _ _ _ hfirst).imp_right fun hm => ⟨index, m, rfl, hm⟩
            · exact .inl hfirst
          · exact .inl hfirst
        · exact .inl hfirst
      exact hobserved.imp_right fun ⟨i, m, he, hm⟩ => ⟨i, m, he ▸ List.mem_cons_self, hm⟩
    · exact .inr ⟨i, m, List.mem_cons_of_mem e hmem, hm⟩

theorem dialled_of_observe {source : AgentFault}
    (h : (f.observe t x a).client = some (.error source)) :
    a.client = some (.error source) ∨ x = .dial (.error source) := by
  unfold observe at h
  split at h
  · cases x <;> simp only [Account.add] at h
    case dial result =>
      split at h
      · exact .inr (congrArg _ (connect_error (Option.some.inj h)))
      · exact .inl h
    all_goals exact .inl h
  · exact .inl h

theorem replied_of_observe {r : Reply} (h : (f.observe t x a).reply = some r) :
    a.reply = some r ∨ x = .reply r := by
  unfold observe at h
  split at h
  · cases x <;> simp only [Account.add] at h
    case reply r' => exact .inr (congrArg _ (Option.some.inj h))
    case dial result =>
      split at h <;> exact .inl h
    all_goals exact .inl h
  · exact .inl h

theorem items_observe (h : f.stepTask t x = some (g, phase)) :
    (f.observe t x a).items = a.items ∨ ∃ i, x = .item i ∧
      (f.observe t x a).items = a.items ++ [i] := by
  simp only [observe, h]
  cases x
  case item i => exact .inr ⟨i, rfl, rfl⟩
  case dial result =>
    simp only [Account.add]
    split <;> exact .inl rfl
  all_goals exact .inl rfl

/-- A task comes to an answer where a stream is over, or with embeddings. -/
theorem move_of_completed {result : String}
    (h : f.stepTask t x = some (g, .ending (.completed result))) :
    x = .over ∨ ∃ r, x = .reply (.embeddings r) := by
  generalize hphase : Phase.ending (.completed result) = phase at h
  cases taskStepped_of_stepTask h with
  | «over» => exact .inl rfl
  | embedded => exact .inr ⟨_, rfl⟩
  | _ => cases hphase

/-- The account `a` of the job `id` is that of a task which reads the stream `s` without passing
over any of it. -/
structure Hears (f : Fleet) (id : String) (s : List Item) (a : Account) : Prop where
  items : a.items <+: s
  /-- Whoever has an outcome of the stream has read all of it. -/
  ending : ∀ t ∈ f.processor.tasks, t.job.id = id →
    (∃ result, t.phase = .ending (.completed result)) → a.reply = some .streaming → a.items = s
  completed : ∀ k, f.queue.get? id = some k → k.status = .completed →
    a.reply = some .streaming → a.items = s
  embeddings : ∀ r, a.reply = some (.embeddings r) →
    ∃ k, f.queue.get? id = some k ∧ k.kind = .embeddings

namespace Hears

theorem ofLimit (limit : Nat) (id : String) (s : List Item) :
    (Fleet.ofLimit limit).Hears id s {} where
  items := List.nil_prefix
  ending _ h := by cases h
  completed _ h := by cases h
  embeddings _ h := by cases h

/-- The task of the job takes a step. -/
theorem task (h : f.Hears id s a) (ho : f.Owned served cancelled) {i : Nat}
    (ht : f.processor.tasks[i]? = some t) (hid : t.job.id = id)
    (hstep : f.stepTask t x = some (g, phase)) (hfollows : x.Follows a.items s) :
    (f.after (.move (.task i x))).Hears id s (f.observe t x a) := by
  subst hid
  have hmem := List.mem_of_getElem? ht
  obtain ⟨j, hget, hallows⟩ := ho.record_of_task hmem
  refine ⟨?_, fun u hu hid hresult => ?_, fun k hk hcompleted => ?_, fun r hr => ?_⟩
  · rcases items_observe (a := a) hstep with hsame | ⟨i, rfl, hitem⟩
    · rw [hsame]
      exact h.items
    · rw [hitem]
      exact hfollows
  · obtain ⟨result, hphase⟩ := hresult
    rw [ho.phase_after ht hstep hu hid] at hphase
    subst hphase
    intro hreply
    rcases move_of_completed hstep with rfl | ⟨r, rfl⟩
    · simp only [observe, hstep, Account.add]
      exact hfollows
    · simp only [observe, hstep, Account.add] at hreply
      cases hreply
  · -- The job is not completed before its task records that, and this is another step.
    obtain ⟨k', hk', hrecorded⟩ := ho.recorded_after hget (.move (.task i x))
    obtain rfl := Option.some.inj (hk'.symm.trans hk)
    cases hrecorded with
    | same =>
      have hopen := hallows.assigned_or_running
      rw [hcompleted] at hopen
      rcases hopen with hopen | hopen <;> cases hopen
    | marked => cases hcompleted
    | closed => cases hstep
  · rcases replied_of_observe hr with hbefore | rfl
    · obtain ⟨k, hk, hkind⟩ := h.embeddings r hbefore
      obtain ⟨k', hk', hbecomes⟩ := f.grows_after (.move (.task i x)) t.job.id k hk
      exact ⟨k', hk', hbecomes.kind.trans hkind⟩
    · cases taskStepped_of_stepTask hstep with
      | embedded hphase =>
        have hconsistent := (ho.tasks t hmem).1
        unfold Task.Consistent at hconsistent
        rw [hphase] at hconsistent
        have hhold : t.hold ∈ f.holds :=
          List.mem_append_right _ (List.mem_append_right _ (List.mem_map_of_mem hmem))
        obtain ⟨k, hk, hkind, -⟩ := ho.kept.held _ hhold
        obtain ⟨k', hk', hbecomes⟩ :=
          f.grows_after (.move (.task i (.reply (.embeddings r)))) _ k hk
        exact ⟨k', hk', hbecomes.kind.trans
          (hkind.trans (Payload.kind_of_read_embeddings hconsistent))⟩

theorem after (h : f.Hears id s a) (ho : f.Owned served cancelled) {e : Event}
    (hfollows : f.Follows id s a e) : (f.after e).Hears id s (f.observed id a e) := by
  rcases observed_cases ho id a e with
    ⟨ha, htasks⟩ | ⟨i, t, x, g, phase, rfl, ht, hid, hstep, ha⟩
  · rw [ha]
    refine ⟨h.items, fun u hu hid hresult => ?_, fun k hk hcompleted => ?_, fun r hr => ?_⟩
    · rcases htasks u hu hid with ⟨hstarting, -⟩ | ⟨t, ht, hid', hphase⟩
      · obtain ⟨result, hphase⟩ := hresult
        rw [hstarting] at hphase
        cases hphase
      · exact h.ending t ht hid' (by rwa [hphase])
    · cases hbefore : f.queue.get? id with
      | none =>
        rw [(recorded_new hbefore hk).1] at hcompleted
        cases hcompleted
      | some j =>
        obtain ⟨k', hk', hrecorded⟩ := ho.recorded_after hbefore e
        obtain rfl := Option.some.inj (hk'.symm.trans hk)
        cases hrecorded with
        | same => exact h.completed _ hbefore hcompleted
        | assigned => cases hcompleted
        | marked => cases hcompleted
        | @closed i t now outcome ht hid hphase houtcome =>
          cases outcome with
          | completed result =>
            exact h.ending t (List.mem_of_getElem? ht) hid ⟨result, hphase⟩
          | failed fault => cases hcompleted
          | interrupted => exact absurd rfl houtcome
    · obtain ⟨k, hk, hkind⟩ := h.embeddings r hr
      obtain ⟨k', hk', hbecomes⟩ := f.grows_after e id k hk
      exact ⟨k', hk', hbecomes.kind.trans hkind⟩
  · rw [ha]
    exact h.task ho ht hid hstep (hfollows t ht hid (by rw [hstep]; rfl))

end Hears

/-! ### A job that was broken off -/

/-- A shutdown broke the job off: it is running, and its task only has to go. -/
structure BrokenOff (f : Fleet) (id : String) (k : Job) : Prop where
  record : f.queue.get? id = some k
  running : k.status = .running
  task : ∀ t ∈ f.processor.tasks, t.job.id = id → t.phase = .ending .interrupted

theorem BrokenOff.after (h : f.BrokenOff id k) (ho : f.Owned served cancelled) (e : Event) :
    (f.after e).BrokenOff id k := by
  refine ⟨?_, h.running, fun u hu hid => ?_⟩
  · obtain ⟨k', hk', hrecorded⟩ := ho.recorded_after h.record e
    cases hrecorded with
    | same => exact hk'
    | assigned hpending =>
      rw [h.running] at hpending
      cases hpending
    | marked _ _ _ hassigned =>
      rw [h.running] at hassigned
      cases hassigned
    | closed ht hid hphase houtcome =>
      rw [h.task _ (List.mem_of_getElem? ht) hid] at hphase
      cases hphase
      exact absurd rfl houtcome
  · rcases observed_cases ho id {} e with
      ⟨-, htasks⟩ | ⟨i, t, x, g, phase, rfl, ht, hid', hstep, -⟩
    · rcases htasks u hu hid with ⟨-, j, hj, hassigned⟩ | ⟨t, ht, hid', hphase⟩
      · obtain rfl := Option.some.inj (hj.symm.trans h.record)
        rw [h.running] at hassigned
        cases hassigned
      · exact hphase ▸ h.task t ht hid'
    · rw [stepTask_ending (h.task t (List.mem_of_getElem? ht) hid')] at hstep
      cases hstep

end Fleet

/-- Why the chat job with the record `k` has failed, as the account `a` of its task in the events
says, if its node sends the stream `s`. -/
inductive Account.Blames (a : Account) (events : List Fleet.Event) (s : List Item) (k : Job) :
    Prop where
  | payload {fault : Json.Fault} :
    Payload.read k = .error (.invalidPayload .chatCompletion fault) →
    k.IsFailed ("invalid chat_completion payload: " ++ fault.message) → Blames a events s k
  | noNode {payload : Payload} : Payload.read k = .ok payload → a.nodes = some [] →
    k.IsFailed ("no node available for model " ++ payload.model) → Blames a events s k
  | dial {i : Nat} {nodeId : String} {source : AgentFault} : a.client = some (.error source) →
    .move (.task i (.dial (.error source))) ∈ events → k.assignedNode = some nodeId →
    k.IsFailed ("dispatch to node " ++ nodeId ++ " failed: " ++ source.message) →
    Blames a events s k
  | call {i : Nat} {nodeId : String} {source : AgentFault} : a.reply = some (.refused source) →
    .move (.task i (.reply (.refused source))) ∈ events → k.assignedNode = some nodeId →
    k.IsFailed ("dispatch to node " ++ nodeId ++ " failed: " ++ source.message) →
    Blames a events s k
  | stream {chunks : List Chunk} {nodeId : String} {source : AgentFault} {rest : List Item} :
    s = chunks.map .ok ++ .error source :: rest → k.assignedNode = some nodeId →
    k.IsFailed ("dispatch to node " ++ nodeId ++ " failed: " ++ source.message) →
    Blames a events s k

section Tells
variable {f : Fleet} {id : String} {s : List Item} {a : Account} {k : Job}
  (hears : f.Hears id s a) (hget : f.queue.get? id = some k) (hchat : k.kind = .chatCompletion)
  (htells : a.Tells k)
include hears htells

include hget hchat in
/-- A completed chat job has the last chunk of the whole stream. -/
theorem Fleet.Hears.completed_of_tells (hcompleted : k.status = .completed) :
    ∃ chunks : List Chunk, s = chunks.map .ok ∧
      k.IsCompleted ((chunks.getLast?.map Chunk.shape.encode).getD "") := by
  have hfailed : ∀ {message}, ¬ k.IsFailed message := fun h => by
    have hstatus := h.status
    rw [hcompleted] at hstatus
    cases hstatus
  cases htells with
  | unreadable _ _ _ _ h => exact absurd h hfailed
  | noNode _ _ _ _ h => exact absurd h hfailed
  | noClient _ _ _ h => exact absurd h hfailed
  | refused _ _ _ h => exact absurd h hfailed
  | broken _ _ _ _ h => exact absurd h hfailed
  | streamed _ hreply hitems _ hresult =>
    exact ⟨_, (hears.completed k hget hcompleted hreply).symm.trans hitems, hresult⟩
  | embeddings _ hreply =>
    obtain ⟨k', hk', hkind⟩ := hears.embeddings _ hreply
    obtain rfl := Option.some.inj (hk'.symm.trans hget)
    rw [hchat] at hkind
    cases hkind

include hchat in
/-- A failed chat job has a failure from outside. -/
theorem Fleet.Hears.blames_of_tells {events : List Fleet.Event}
    (hdialled : ∀ source, a.client = some (.error source) →
      ∃ i, .move (.task i (.dial (.error source))) ∈ events)
    (hreplied : ∀ r, a.reply = some r → ∃ i, .move (.task i (.reply r)) ∈ events)
    (hfailed : k.status = .failed) : a.Blames events s k := by
  have hcompleted : ∀ {result}, ¬ k.IsCompleted result := fun h => by
    have hstatus := h.status
    rw [hfailed] at hstatus
    cases hstatus
  cases htells with
  | unreadable hread _ _ _ h =>
    rw [hchat] at hread h
    exact .payload hread h
  | noNode hread hnodes _ _ h => exact .noNode hread hnodes h
  | noClient _ hclient hnode h =>
    obtain ⟨i, hmem⟩ := hdialled _ hclient
    exact .dial hclient hmem hnode h
  | refused _ hreply hnode h =>
    obtain ⟨i, hmem⟩ := hreplied _ hreply
    exact .call hreply hmem hnode h
  | broken _ _ hitems hnode h =>
    obtain ⟨rest, hs⟩ := hears.items
    rw [hitems, List.append_assoc] at hs
    exact .stream hs.symm hnode h
  | streamed _ _ _ _ h => exact absurd h hcompleted
  | embeddings _ _ _ h => exact absurd h hcompleted

end Tells

namespace Life

open Fleet (Event)

variable {l : Life} {id : String} {s : List Item} {a : Account} {j k : Job}

theorem Sound.hears_run (h : l.Sound) {events : List Event} (hears : l.fleet.Hears id s a)
    (hstreams : l.fleet.Streams id s a events) :
    (l.run events).fleet.Hears id s (l.fleet.accountOf id a events) := by
  induction events generalizing l a with
  | nil => exact hears
  | cons e events ih => exact ih (h.after e) (hears.after h.owned hstreams.1) hstreams.2

theorem Sound.brokenOff_run (h : l.Sound) (hbroken : l.fleet.BrokenOff id k)
    (events : List Event) : (l.run events).fleet.BrokenOff id k := by
  induction events generalizing l with
  | nil => exact hbroken
  | cons e events ih => exact ih (h.after e) (hbroken.after h.owned e)

/-- A task that notices the shutdown in a stream breaks its job off. -/
theorem Accounted.brokenOff {account : String → Account} (h : l.Accounted account) {i : Nat}
    {t : Task} (ht : l.fleet.processor.tasks[i]? = some t) (hid : t.job.id = id)
    (hstep : (l.fleet.stepTask t .interrupt).isSome = true) :
    ∃ k nodeId, k.IsRunning nodeId ∧ l.fleet.queue.get? id = some k ∧
      (l.after (.move (.task i .interrupt))).fleet.BrokenOff id k := by
  obtain ⟨⟨g, phase⟩, hstep⟩ := Option.isSome_iff_exists.1 hstep
  obtain ⟨k, hget, hfits⟩ := (h.told id).held t (List.mem_of_getElem? ht) hid
  have hstepped := Fleet.taskStepped_of_stepTask hstep
  have hafter : l.fleet.after (.move (.task i .interrupt)) = g.setTask i { t with phase } := by
    rw [Fleet.after, Fleet.step_of_stepTask ht hstep]
    rfl
  cases hstepped with
  | interrupt hphase hcancelled =>
    rw [hphase] at hfits
    obtain ⟨-, -, -, -, -, -, -, hrunning⟩ := hfits
    refine ⟨k, _, hrunning, hget, ?_, hrunning.status, fun u hu hid' => ?_⟩
    · show (l.fleet.after _).queue.get? id = some k
      rw [hafter]
      exact hget
    · exact h.sound.owned.phase_after ht hstep hu (hid'.trans hid.symm)

/-- From the moment at which its task notices the shutdown, and from the one at which it was marked
as running, the record of a job that is broken off stays the same. -/
theorem interrupted_stays (limit : Nat) {earlier : List Event} {i : Nat} {t : Task}
    (later : List Event)
    (ht : ((start limit).run earlier).fleet.processor.tasks[i]? = some t) (hid : t.job.id = id)
    (hstep : (((start limit).run earlier).fleet.stepTask t .interrupt).isSome = true) :
    ∃ k nodeId, k.IsRunning nodeId ∧ ((start limit).run earlier).fleet.queue.get? id = some k ∧
      RunningSince limit (earlier ++ .move (.task i .interrupt) :: later) id k := by
  have hearlier := (Accounted.start limit).run earlier
  obtain ⟨k, nodeId, hrunning, hget, hbroken⟩ := hearlier.brokenOff ht hid hstep
  have hend := (hearlier.sound.after (.move (.task i .interrupt))).brokenOff_run hbroken later
  refine ⟨k, nodeId, hrunning, hget, running_since limit _ ?_ hrunning.status⟩
  rw [run_append]
  exact hend.record

/-- Whatever the record of the job `id` blames on outside is in the events. -/
theorem blames_run (limit : Nat) {events : List Event} (h : (start limit).run events |>.Accounted
      fun id => (Fleet.ofLimit limit).accountOf id {} events)
    (hears : ((start limit).run events).fleet.Hears id s
      ((Fleet.ofLimit limit).accountOf id {} events))
    (hget : ((start limit).run events).fleet.queue.get? id = some k)
    (hchat : k.kind = .chatCompletion) (hfailed : k.status = .failed) :
    ((Fleet.ofLimit limit).accountOf id {} events).Blames events s k := by
  have hfinal : k.status.isTerminal = true := by
    rw [hfailed]
    rfl
  have htells := (h.told id).tells hget hfinal
  refine hears.blames_of_tells hchat htells (fun source hclient => ?_) (fun r hreply => ?_) hfailed
  · rcases Fleet.of_accountOf (P := fun a => a.client = some (.error source))
      (fun _ _ _ _ => Fleet.dialled_of_observe) events hclient with hnone | ⟨i, m, hmem, rfl⟩
    · cases hnone
    · exact ⟨i, hmem⟩
  · rcases Fleet.of_accountOf (P := fun a => a.reply = some r)
      (fun _ _ _ _ => Fleet.replied_of_observe) events hreply with hnone | ⟨i, m, hmem, rfl⟩
    · cases hnone
    · exact ⟨i, hmem⟩

/-- In every life of a fleet, when the node of a job sends the stream `s`, and whenever a shutdown
comes and is noticed: a chat job that is completed has the last chunk of all of `s`; one that has
failed has a failure from outside, that of the stream being its first; one that is broken off keeps
the record that was written when it was marked as running. And a job that the loop takes off the
queue stays in its hand, shutdown or not, until it is marked as assigned and its task started, both
of which the loop can do. -/
theorem shutdown_keeps_outcomes (limit : Nat) (events : List Event) (id : String) (s : List Item)
    (hstreams : (Fleet.ofLimit limit).Streams id s {} events) :
    let l := (start limit).run events
    (∀ k, l.fleet.queue.get? id = some k → k.kind = .chatCompletion →
      (k.status = .completed → ∃ chunks : List Chunk, s = chunks.map .ok ∧
        k.IsCompleted ((chunks.getLast?.map Chunk.shape.encode).getD "")) ∧
      (k.status = .failed → ((Fleet.ofLimit limit).accountOf id {} events).Blames events s k)) ∧
    (∀ earlier i later t, events = earlier ++ .move (.task i .interrupt) :: later →
      ((start limit).run earlier).fleet.processor.tasks[i]? = some t → t.job.id = id →
      (((start limit).run earlier).fleet.stepTask t .interrupt).isSome = true →
      ∃ k nodeId, k.IsRunning nodeId ∧
        ((start limit).run earlier).fleet.queue.get? id = some k ∧
        RunningSince limit events id k) ∧
    (∀ job, l.fleet.processor.loop = .holding job →
      (∀ now, (l.fleet.step (.assign now)).isSome = true) ∧
      ∀ m g, l.fleet.step m = some g → g.processor.loop = .holding job ∨
        ∃ now, m = .assign now ∧ g.processor.loop = .marked job ∧
          ∃ j, g.queue.get? job.id = some j ∧ j.status = .assigned) ∧
    (∀ job, l.fleet.processor.loop = .marked job → (l.fleet.step .spawn).isSome = true ∧
      ∀ m g, l.fleet.step m = some g → g.processor.loop = .marked job ∨
        m = .spawn ∧ ∃ t ∈ g.processor.tasks, t.job = job ∧ t.phase = .starting) ∧
    ∀ k, l.fleet.queue.get? id = some k →
      id ∈ l.fleet.queue.pending ∨ (∃ job, l.fleet.processor.loop.job? = some job ∧ job.id = id) ∨
        Started limit events id := by
  intro l
  have h := (Accounted.start limit).run events
  have hears : l.fleet.Hears id s ((Fleet.ofLimit limit).accountOf id {} events) :=
    (Sound.start limit).hears_run (.ofLimit limit id s) hstreams
  refine ⟨fun k hget hchat => ⟨fun hcompleted => ?_, blames_run limit h hears hget hchat⟩, ?_,
    fun job hloop => h.sound.owned.step_holding hloop, fun job hloop => Fleet.step_marked hloop,
    fun k hget => or_assoc.1 (taken_started limit events hget)⟩
  · have hfinal : k.status.isTerminal = true := by
      rw [hcompleted]
      rfl
    exact hears.completed_of_tells hget hchat ((h.told id).tells hget hfinal) hcompleted
  · rintro earlier i later t rfl ht hid hstep
    exact interrupted_stays limit later ht hid hstep

/-- A chat job that the loop has in its hand when the shutdown comes, and whose task notices that
after the first of two chunks. -/
theorem shutdown_keeps_outcomes_amid :
    let now : Instant := .ofNanos 0
    let soon : Instant := .ofNanos 1
    let taken : List Event := [.register now { node := some { id := "n", hostname := "h" } },
      .submit now ⟨"a", "chat_completion", "[\"m\",[[\"user\"]]]"⟩, .move .start, .move .acquire,
      .move .dequeue, .move .cancel, .move (.assign now), .move .spawn]
    let reading : List TaskMove := [.read, .select, .mark soon, .seek, .dial (.ok ()), .ask,
      .reply .streaming, .item (.ok {})]
    let earlier : List Event := taken ++ reading.map fun m => .move (.task 0 m)
    let later : List Event := [.move (.task 0 (.record soon)), .move .stop]
    let events : List Event := earlier ++ .move (.task 0 .interrupt) :: later
    let k : Job := { Job.submitted "a" .chatCompletion "[\"m\",[[\"user\"]]]" now with
      status := .running, updatedAt := soon, assignedNode := some "n" }
    (Fleet.ofLimit 1).Streams "a" [.ok {}, .ok {}] {} events ∧ RunningSince 1 events "a" k ∧
      Started 1 events "a" := by
  intro now soon taken reading earlier later events k
  have hstreams : (Fleet.ofLimit 1).Streams "a" [.ok {}, .ok {}] {} events := by decide +kernel
  have hget : ((start 1).run earlier).fleet.queue.get? "a" = some k := by decide +kernel
  have hend : ((start 1).run events).fleet.queue.get? "a" = some k := by decide +kernel
  obtain ⟨-, hinterrupted, -, -, htaken⟩ := shutdown_keeps_outcomes 1 events "a" _ hstreams
  let node : Node := { id := "n", hostname := "h", lastSeen := some now }
  let t : Task := {
    job := Job.submitted "a" .chatCompletion "[\"m\",[[\"user\"]]]" now
    cancelled := true
    phase := .reading node (some {}) }
  have htask : ((start 1).run earlier).fleet.processor.tasks[0]? = some t := by decide +kernel
  obtain ⟨k', nodeId, -, hk', hsince⟩ := hinterrupted earlier 0 later t rfl htask rfl rfl
  obtain rfl := Option.some.inj (hk'.symm.trans hget)
  refine ⟨hstreams, hsince, ?_⟩
  have hpending : ((start 1).run events).fleet.queue.pending = [] := by decide +kernel
  have hhand : ((start 1).run events).fleet.processor.loop.job? = none := by decide +kernel
  rcases htaken k hend with hwaits | ⟨job, hjob, -⟩ | hstarted
  · rw [hpending] at hwaits
    cases hwaits
  · rw [hhand] at hjob
    cases hjob
  · exact hstarted

end Life

end InferenceFleet
