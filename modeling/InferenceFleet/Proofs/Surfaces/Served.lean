import InferenceFleet.Proofs.Fleet.Permits
import InferenceFleet.Proofs.Surfaces.Answers

/-!
# What agents are asked to serve

A surface does no more for a request than an operation of the control plane, so a life in which
requests come to both surfaces is a life of events (`run_of_meet`). An agent gets for a caller only
what interactive dispatch has checked (`sends_chat`), and for a job just what the task has read,
unchecked (`asked_of_stepTask`): `Life.Served` is the invariant.
-/

namespace InferenceFleet

open Http

/-- The request wants something of no model, or nothing. -/
def Payload.isEmpty : Payload → Bool
  | .chat r => r.model.isEmpty || r.messages.isEmpty
  | .embeddings r => r.model.isEmpty || r.input.isEmpty

/-! ### Requests that come to a life -/

/-- An event of the fleet, or a request that comes to one of the surfaces. -/
inductive Occurrence where
  | event (e : Fleet.Event)
  | rpc (agents : Agents) (now : Instant) (r : Request)
  | gateway (agents : Agents) (key : Gateway.ApiKey) (r : Request)

namespace Life

open Fleet (Event)

/-- The life after a request has made `g` of the fleet: jobs may have come, and agents may have been
asked for the caller. -/
def handled (l : Life) (g : Fleet) : Life where
  fleet := g
  accepted := l.accepted ++ (g.queue.jobs.drop l.fleet.queue.jobs.length).map Job.id
  requests := l.requests ++ (g.asked.drop l.fleet.asked.length).map fun a => (none, a)
  cancelled := l.cancelled

def meet (l : Life) : Occurrence → Life
  | .event e => l.after e
  | .rpc agents now r => l.handled (Rpc.handle l.fleet agents now r).2
  | .gateway agents key r => l.handled (Gateway.handle l.fleet agents key r).2

theorem handled_same (l : Life) : l.handled l.fleet = l := by
  simp [handled]

theorem handled_after (l : Life) {e : Event} (h : e.isMove = false) :
    l.handled (l.fleet.after e) = l.after e := by
  have haccepted : ((l.fleet.after e).queue.jobs.drop l.fleet.queue.jobs.length).map Job.id =
      (l.fleet.accepted? e).toList := by
    rw [List.map_drop, l.fleet.ids_after e, List.drop_left' (List.length_map _)]
  have hworker : l.fleet.worker? e = none := by
    cases e <;> first | rfl | cases h
  have hcancel : e.isCancel = false := by
    cases e <;> first | rfl | cases h
  rw [handled, after, haccepted, hworker, hcancel, Bool.or_false]
  rfl

theorem meet_cases (l : Life) (o : Occurrence) : l.meet o = l ∨ ∃ e, l.meet o = l.after e := by
  have hoperated : ∀ {g}, l.fleet.Operated g → l.handled g = l ∨ ∃ e, l.handled g = l.after e := by
    rintro g (rfl | ⟨e, hmove, rfl⟩)
    · exact .inl l.handled_same
    · exact .inr ⟨e, l.handled_after hmove⟩
  cases o with
  | event e => exact .inr ⟨e, rfl⟩
  | rpc agents now r => exact hoperated (Rpc.operated_handle l.fleet agents now r)
  | gateway agents key r => exact hoperated (Gateway.operated_handle l.fleet agents key r)

/-- Nothing happens in a life that requests come to which could not happen by events alone. -/
theorem run_of_meet (l : Life) (occurrences : List Occurrence) :
    ∃ events, occurrences.foldl meet l = l.run events := by
  induction occurrences generalizing l with
  | nil => exact ⟨[], rfl⟩
  | cons o occurrences ih =>
    obtain ⟨events, hevents⟩ := ih (l.meet o)
    rcases l.meet_cases o with hsame | ⟨e, hafter⟩
    · exact ⟨events, hevents.trans (by rw [hsame])⟩
    · refine ⟨e :: events, hevents.trans ?_⟩
      rw [hafter]
      rfl

end Life

/-! ### What agents are asked for -/

namespace Fleet
variable {f g : Fleet} {agents : Agents} {t : Task} {m : Move} {x : TaskMove} {phase : Phase}

/-- From `f` to `g` at most the request has gone out, and that only if it is not empty. -/
def Sends (f g : Fleet) (request : Payload) : Prop :=
  g.asked = f.asked ∨
    request.isEmpty = false ∧ ∃ target, g.asked = f.asked ++ [⟨target, request⟩]

theorem sends_withNode {α : Type} {request : Payload} (hfull : request.isEmpty = false)
    {call : Fleet → String → Except AgentFault α × Fleet}
    (hcall : ∀ g target, (call g target).2 = g.ask target request) (model : String) :
    f.Sends (f.withNode agents model call).2 request := by
  unfold withNode
  split
  · exact .inl rfl
  · rename_i node _
    have hclient : (f.clientFor agents node).2.asked = f.asked := connect_asked ..
    split
    · rename_i heq
      rw [heq] at hclient
      exact .inl hclient
    · rename_i target g heq
      rw [heq] at hclient
      have hask : (call g target).2.asked = f.asked ++ [⟨target, request⟩] := by
        rw [hcall, ← hclient]
        rfl
      refine .inr ⟨hfull, target, ?_⟩
      split <;> rename_i heq' <;> rw [heq'] at hask <;> exact hask

theorem sends_chat (f : Fleet) (agents : Agents) (r : ChatRequest) :
    f.Sends (f.chat agents r).2 (.chat r) := by
  have hdispatch : f.Sends (f.dispatchChat agents r).2 (.chat r) := by
    unfold dispatchChat
    split
    · exact .inl rfl
    · split
      · exact .inl rfl
      · rename_i hmodel hmessages
        have hfull : (Payload.chat r).isEmpty = false := by simp [Payload.isEmpty, hmodel, hmessages]
        exact sends_withNode hfull (fun _ _ => rfl) r.model
  unfold chat
  split <;> rename_i heq <;> rw [heq] at hdispatch <;> exact hdispatch

theorem sends_embeddings (f : Fleet) (agents : Agents) (r : EmbeddingsRequest) :
    f.Sends (f.embeddings agents r).2 (.embeddings r) := by
  have hdispatch : f.Sends (f.dispatchEmbeddings agents r).2 (.embeddings r) := by
    unfold dispatchEmbeddings
    split
    · exact .inl rfl
    · split
      · exact .inl rfl
      · rename_i hmodel hinput
        have hfull : (Payload.embeddings r).isEmpty = false := by
          simp [Payload.isEmpty, hmodel, hinput]
        exact sends_withNode hfull (fun _ _ => rfl) r.model
  unfold embeddings
  split <;> rename_i heq <;> rw [heq] at hdispatch <;> exact hdispatch

/-- A task sends what it has read, empty or not. -/
theorem asked_of_stepTask (h : f.stepTask t x = some (g, phase)) :
    g.asked = f.asked ∨ ∃ payload node target, t.phase = .asking payload node target ∧
      g.asked = f.asked ++ [⟨target, payload⟩] := by
  cases taskStepped_of_stepTask h with
  | @dial payload node slot result target g hphase hconnect =>
    have hasked := f.connect_asked slot node.agentTarget result
    rw [hconnect] at hasked
    exact .inl hasked
  | @noClient payload node slot result fault g hphase hconnect =>
    have hasked := f.connect_asked slot node.agentTarget result
    rw [hconnect] at hasked
    exact .inl hasked
  | @ask payload node target hphase => exact .inr ⟨payload, node, target, hphase, rfl⟩
  | _ => exact .inl rfl

section
variable (f : Fleet) (now : Instant)

theorem asked_submitJob (r : Submission) : (f.submitJob now r).2.asked = f.asked := by
  rcases f.submitJob_eq now r with ⟨refusal, h⟩ | ⟨kind, receipt, -, -, -, h⟩ <;> rw [h]

theorem asked_registerNode (r : RegisterRequest) : (f.registerNode now r).2.asked = f.asked := by
  unfold registerNode
  split
  · rfl
  · split <;> rfl

theorem asked_heartbeat (r : HeartbeatRequest) : (f.heartbeat now r).2.asked = f.asked := by
  unfold heartbeat
  split <;> rfl

theorem asked_updateNode (r : UpdateRequest) : (f.updateNode now r).2.asked = f.asked := by
  unfold updateNode
  split
  · rfl
  · split <;> rfl

theorem asked_sweepNode (timeout : Nat) (id : String) :
    (f.sweepNode now timeout id).2.asked = f.asked := by
  unfold sweepNode
  split <;> rfl

end

/-- Where a request that agents get in the event comes from. -/
inductive Origin (f : Fleet) (e : Event) (a : Asked) : Prop where
  | caller : f.worker? e = none → a.request.isEmpty = false → Origin f e a
  | job {t : Task} : t ∈ f.processor.tasks → f.worker? e = some t.job.id →
    Payload.read t.job = .ok a.request → Origin f e a

theorem origin_of_newlyAsked {served : List String} {cancelled : Bool}
    (ho : f.Owned served cancelled) {e : Event} {a : Asked} (ha : a ∈ f.newlyAsked e) :
    f.Origin e a := by
  have hquiet : (f.after e).asked = f.asked → f.Origin e a := by
    intro hasked
    rw [newlyAsked_of_append (hasked.trans (List.append_nil _).symm)] at ha
    cases ha
  have hone : ∀ {b}, (f.after e).asked = f.asked ++ [b] → a = b := by
    intro b hasked
    rw [newlyAsked_of_append hasked] at ha
    exact List.mem_singleton.1 ha
  have hsends : ∀ {request}, f.worker? e = none → f.Sends (f.after e) request → f.Origin e a := by
    rintro request hworker (hasked | ⟨hfull, target, hasked⟩)
    · exact hquiet hasked
    · obtain rfl := hone hasked
      exact .caller hworker hfull
  cases e with
  | move m =>
    cases hstep : f.step m with
    | none => exact hquiet (by rw [after, hstep]; rfl)
    | some g =>
      have hafter : f.after (.move m) = g := by rw [after, hstep]; rfl
      rw [hafter] at hquiet hone
      cases stepped_of_step hstep with
      | @task i t x f' phase ht htask =>
        have hmem := List.mem_of_getElem? ht
        rcases asked_of_stepTask htask with hasked | ⟨payload, node, target, hphase, hasked⟩
        · exact hquiet hasked
        · -- The phase holds the payload that was read before, whatever happened since.
          obtain rfl := hone hasked
          have hread := (ho.tasks t hmem).1
          rw [Task.Consistent, hphase] at hread
          exact .job hmem (by rw [worker?, ht]; rfl) hread
      | _ => exact hquiet rfl
  | chat agents r => exact hsends rfl (f.sends_chat agents r)
  | embeddings agents r => exact hsends rfl (f.sends_embeddings agents r)
  | submit now r => exact hquiet (f.asked_submitJob now r)
  | register now r => exact hquiet (f.asked_registerNode now r)
  | heartbeat now r => exact hquiet (f.asked_heartbeat now r)
  | update now r => exact hquiet (f.asked_updateNode now r)
  | sweepNode now timeout id => exact hquiet (f.asked_sweepNode now timeout id)

end Fleet

namespace Life

open Fleet (Event)

variable {l : Life}

/-- Callers' requests are not empty, and those of jobs are what the jobs' payloads say. -/
structure Served (l : Life) : Prop where
  sound : l.Sound
  upToDate : l.fleet.UpToDate
  caller : ∀ a, (none, a) ∈ l.requests → a.request.isEmpty = false
  job : ∀ id a, (some id, a) ∈ l.requests →
    ∃ j, l.fleet.queue.get? id = some j ∧ Payload.read j = .ok a.request

namespace Served

theorem start (limit : Nat) : (Life.start limit).Served where
  sound := .start limit
  upToDate _ h := by cases h
  caller _ h := by cases h
  job _ _ h := by cases h

theorem after (h : l.Served) (e : Event) : (l.after e).Served := by
  have hnew : ∀ {id : Option String} {a : Asked},
      (id, a) ∈ (l.fleet.newlyAsked e).map (fun a => (l.fleet.worker? e, a)) →
        l.fleet.worker? e = id ∧ l.fleet.Origin e a := by
    intro id a ha
    obtain ⟨b, hb, heq⟩ := List.mem_map.1 ha
    cases heq
    exact ⟨rfl, Fleet.origin_of_newlyAsked h.sound.owned hb⟩
  -- A record keeps what its job is, so a payload reads the same as long as the job is there.
  have hkept : ∀ {id : String} {j : Job} {payload : Payload}, l.fleet.queue.get? id = some j →
      Payload.read j = .ok payload →
        ∃ k, (l.fleet.after e).queue.get? id = some k ∧ Payload.read k = .ok payload := by
    intro id j payload hget hread
    obtain ⟨k, hk, hbecomes⟩ := l.fleet.grows_after e id j hget
    exact ⟨k, hk, (Payload.read_congr hbecomes.kind hbecomes.payload).trans hread⟩
  refine ⟨h.sound.after e, h.upToDate.after e, fun a ha => ?_, fun id a ha => ?_⟩
  · rcases List.mem_append.1 ha with ha | ha
    · exact h.caller a ha
    · obtain ⟨hworker, horigin⟩ := hnew ha
      cases horigin with
      | caller _ hfull => exact hfull
      | job _ hjob =>
        rw [hworker] at hjob
        cases hjob
  · rcases List.mem_append.1 ha with ha | ha
    · obtain ⟨j, hget, hread⟩ := h.job id a ha
      exact hkept hget hread
    · obtain ⟨hworker, horigin⟩ := hnew ha
      cases horigin with
      | caller hnone _ =>
        rw [hworker] at hnone
        cases hnone
      | @job t ht hjob hread =>
        obtain rfl := Option.some.inj (hworker.symm.trans hjob)
        obtain ⟨j, hget, hbecomes⟩ :=
          h.upToDate t.job (List.mem_append_right _ (List.mem_map_of_mem ht))
        exact hkept hget ((Payload.read_congr hbecomes.kind hbecomes.payload).trans hread)

theorem run (h : l.Served) (events : List Event) : (l.run events).Served := by
  induction events generalizing l with
  | nil => exact h
  | cons e events ih => exact ih (h.after e)

end Served

/-- In every life that requests come to, by whichever surface, however its steps are mixed: an agent
is asked for a caller only what is not empty, and for a job exactly what the job's payload reads as.
So no agent gets an empty request unless the payload of a job is one. -/
theorem requests_nonempty_or_read (limit : Nat) (occurrences : List Occurrence) :
    let l := occurrences.foldl meet (start limit)
    l.requests.map Prod.snd = l.fleet.asked ∧
      (∀ a, (none, a) ∈ l.requests → a.request.isEmpty = false) ∧
      (∀ id a, (some id, a) ∈ l.requests →
        ∃ j, l.fleet.queue.get? id = some j ∧ Payload.read j = .ok a.request) ∧
      ((∀ id j payload, l.fleet.queue.get? id = some j → Payload.read j = .ok payload →
          payload.isEmpty = false) →
        ∀ a ∈ l.fleet.asked, a.request.isEmpty = false) := by
  intro l
  have hserved : l.Served := by
    obtain ⟨events, hevents⟩ := run_of_meet (start limit) occurrences
    rw [show l = (start limit).run events from hevents]
    exact (Served.start limit).run events
  refine ⟨hserved.sound.requests, hserved.caller, hserved.job, fun hfull a ha => ?_⟩
  rw [← hserved.sound.requests] at ha
  obtain ⟨⟨id?, b⟩, hb, rfl⟩ := List.mem_map.1 ha
  cases id? with
  | none => exact hserved.caller b hb
  | some id =>
    obtain ⟨j, hget, hread⟩ := hserved.job id b hb
    exact hfull id j b.request hget hread

/-- A chat completion that a caller asks for, between the submission and the start of a job with an
empty payload. -/
theorem requests_nonempty_or_read_mixed :
    let now : Instant := .ofNanos 0
    let agents : Agents := ⟨fun _ => .ok (), fun _ _ => .ok [], fun _ _ => .ok {}⟩
    let body : List UInt8 := "[\"m\",[[\"user\"]]]".toUTF8.toList
    let moves : List Move := [.start, .acquire, .dequeue, .assign now, .spawn, .task 0 .read,
      .task 0 .select, .task 0 (.mark now), .task 0 .seek, .task 0 (.dial (.ok ())), .task 0 .ask]
    let occurrences : List Occurrence :=
      [.event (.register now { node := some { id := "n", hostname := "h" } }),
        .event (.submit now ⟨"a", "chat_completion", "\x7b\x7d"⟩),
        .rpc agents now { method := "POST", target := "/rpc/chat/completions", body }] ++
      moves.map fun m => .event (.move m)
    let l := occurrences.foldl meet (start 1)
    let asked : Asked := ⟨"h:50052", .chat { model := "m", messages := [{ role := "user" }] }⟩
    l.requests = [(none, asked), (some "a", ⟨"h:50052", .chat {}⟩)] ∧
      asked.request.isEmpty = false ∧
      ∃ j, l.fleet.queue.get? "a" = some j ∧ Payload.read j = .ok (.chat {}) := by
  intro now agents body moves occurrences l asked
  have hrequests : l.requests = [(none, asked), (some "a", ⟨"h:50052", .chat {}⟩)] := by
    decide +kernel
  obtain ⟨-, hcaller, hjob, -⟩ := requests_nonempty_or_read 1 occurrences
  refine ⟨hrequests, hcaller asked ?_, hjob "a" ⟨"h:50052", .chat {}⟩ ?_⟩
  · show (none, asked) ∈ l.requests
    rw [hrequests]
    exact List.mem_cons_self
  · show (some "a", _) ∈ l.requests
    rw [hrequests]
    exact List.mem_cons_of_mem _ List.mem_cons_self

/-- A job whose payload says nothing reaches an agent as an empty request. -/
theorem empty_payload_asked :
    ¬ ∀ (limit : Nat) (occurrences : List Occurrence),
      ∀ a ∈ (occurrences.foldl meet (start limit)).fleet.asked, a.request.isEmpty = false := by
  intro hall
  let now : Instant := .ofNanos 0
  let moves : List Move := [.start, .acquire, .dequeue, .assign now, .spawn, .task 0 .read,
    .task 0 .select, .task 0 (.mark now), .task 0 .seek, .task 0 (.dial (.ok ())), .task 0 .ask]
  let occurrences : List Occurrence :=
    [.event (.register now { node := some { id := "n", hostname := "h" } }),
      .event (.submit now ⟨"a", "chat_completion", "\x7b\x7d"⟩)] ++
    moves.map fun m => .event (.move m)
  have hasked : (occurrences.foldl meet (start 1)).fleet.asked = [⟨"h:50052", .chat {}⟩] := by
    decide +kernel
  have hfull := hall 1 occurrences ⟨"h:50052", .chat {}⟩ (by rw [hasked]; exact List.mem_cons_self)
  cases hfull

end Life

end InferenceFleet
