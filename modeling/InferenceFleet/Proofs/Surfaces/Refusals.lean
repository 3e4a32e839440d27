import InferenceFleet.Gateway.Surface
import InferenceFleet.Proofs.Fleet.Life
import InferenceFleet.Rpc.Surface

/-!
# Refused requests

What can be wrong with a request before a node is called on is said for each endpoint by a
condition on the request and the fleet. `Handled` says what a surface then does: such a request is
refused and has no effect at all, any other is answered or given to a node, and a refusal never
changes a node's record or a job. It is proved from the operations up: first for those of the
control plane, then for the endpoints, and last for each surface with its checks of path, method,
length and key.
-/

namespace InferenceFleet

open Http

namespace Fleet

/-- `g` has the nodes and the jobs of `f`. -/
structure SameRecords (f g : Fleet) : Prop where
  registry : g.registry = f.registry
  queue : g.queue = f.queue

/-! ### What the operations refuse -/

/-- An operation is refused exactly if something is wrong, and then has no effect. -/
structure Refuses {α : Type} (f : Fleet) (wrong : Prop) (outcome : Except Refusal α × Fleet) :
    Prop where
  refused : wrong → ∃ r, outcome = (.error r, f)
  done : ¬ wrong → ∃ a, outcome.1 = .ok a

/-- An operation that may call on a node: no record changes, and nothing at all if something is
wrong with the request. -/
structure Dispatches {α : Type} (f : Fleet) (wrong : Prop) (outcome : Except Refusal α × Fleet) :
    Prop where
  refused : wrong → ∃ r, outcome = (.error r, f)
  same : f.SameRecords outcome.2

theorem Refuses.of_error {α : Type} {f : Fleet} {wrong : Prop} (h : wrong) (r : Refusal) :
    Refuses f wrong ((.error r : Except Refusal α), f) :=
  ⟨fun _ => ⟨r, rfl⟩, absurd h⟩

theorem Refuses.of_ok {α : Type} {f g : Fleet} {wrong : Prop} (h : ¬ wrong) (a : α) :
    Refuses f wrong (.ok a, g) :=
  ⟨fun hwrong => absurd hwrong h, fun _ => ⟨a, rfl⟩⟩

section
variable (f : Fleet) (now : Instant) (agents : Agents)

theorem refuses_registerNode (r : RegisterRequest) :
    Refuses f (∀ n, r.node = some n → n.id.isEmpty) (f.registerNode now r) := by
  unfold registerNode
  cases r.node with
  | none =>
    refine .of_error (fun n hn => ?_) _
    cases hn
  | some n =>
    by_cases hid : n.id.isEmpty = true
    · simp only [hid, if_true]
      exact .of_error (fun m hm => Option.some.inj hm ▸ hid) _
    · simp only [hid]
      exact .of_ok (fun hwrong => hid (hwrong n rfl)) _

theorem refuses_heartbeat (r : HeartbeatRequest) :
    Refuses f (f.registry.get? r.nodeId = none) (f.heartbeat now r) := by
  unfold heartbeat Registry.heartbeat Registry.modify
  cases f.registry.get? r.nodeId with
  | none => exact .of_error rfl _
  | some n => exact .of_ok nofun _

theorem refuses_updateNode (r : UpdateRequest) :
    Refuses f (r.capabilities = none ∨ f.registry.get? r.nodeId = none) (f.updateNode now r) := by
  unfold updateNode Registry.setCapabilities Registry.modify
  cases r.capabilities with
  | none => exact .of_error (.inl rfl) _
  | some capabilities =>
    cases f.registry.get? r.nodeId with
    | none => exact .of_error (.inr rfl) _
    | some n => exact .of_ok (fun hwrong => hwrong.elim nofun nofun) _

theorem refuses_submitJob (r : Submission) :
    Refuses f (r.jobId.isEmpty ∨ JobKind.ofName? r.jobType = none ∨
      (f.queue.get? r.jobId).isSome) (f.submitJob now r) := by
  unfold submitJob
  by_cases hid : r.jobId.isEmpty = true
  · rw [if_pos hid]
    exact .of_error (.inl hid) _
  · rw [if_neg hid]
    cases hkind : JobKind.ofName? r.jobType with
    | none => exact .of_error (.inr (.inl rfl)) _
    | some kind =>
      cases hjob : f.queue.get? r.jobId with
      | some j =>
        have hrefused := Queue.enqueue_of_some (j := .submitted r.jobId kind r.payload now) now hjob
        simp only [hrefused]
        exact .of_error (.inr (.inr rfl)) _
      | none =>
        obtain ⟨hok, -⟩ :=
          Queue.enqueue_of_none (j := .submitted r.jobId kind r.payload now) now hjob
        obtain ⟨queue, haccepted⟩ : ∃ queue,
            f.queue.enqueue now (.submitted r.jobId kind r.payload now) = (.ok (), queue) :=
          ⟨_, Prod.ext hok rfl⟩
        simp only [haccepted]
        refine .of_ok ?_ _
        rintro (hwrong | hwrong | hwrong)
        · exact hid hwrong
        · cases hwrong
        · cases hwrong

theorem refuses_jobStatus (id : String) :
    Refuses f (f.queue.get? id = none) (f.jobStatus id, f) := by
  unfold jobStatus
  cases f.queue.get? id with
  | none => exact .of_error rfl _
  | some j => exact .of_ok nofun _

end

/-- A chat completion that no node is called on for. -/
def CannotChat (f : Fleet) (r : ChatRequest) : Prop :=
  r.model.isEmpty ∨ r.messages.isEmpty ∨ f.registry.list = []

def CannotEmbed (f : Fleet) (r : EmbeddingsRequest) : Prop :=
  r.model.isEmpty ∨ r.input.isEmpty ∨ f.registry.list = []

section
variable {f : Fleet} (agents : Agents)

theorem withNode_of_nobody {α : Type} (hnobody : f.registry.list = []) (model : String)
    (call : Fleet → String → Except AgentFault α × Fleet) :
    f.withNode agents model call = (.error (.noNode { model }), f) := by
  have hselect : f.registry.select model = .error { model } := by
    rw [Registry.select, hnobody]
  rw [withNode, hselect]

variable (f)

theorem SameRecords.clientFor (n : Node) : f.SameRecords (f.clientFor agents n).2 :=
  ⟨connect_registry .., (SameWork.clientFor f agents n).queue⟩

theorem dispatches_chat (r : ChatRequest) : Dispatches f (f.CannotChat r) (f.chat agents r) where
  same := chat_induction ⟨rfl, rfl⟩ (SameRecords.clientFor f agents)
    (fun _ _ _ h => ⟨h.registry, h.queue⟩) r
  refused h := by
    have hdispatch : ∃ fault, f.dispatchChat agents r = (.error fault, f) := by
      unfold dispatchChat
      split
      · exact ⟨_, rfl⟩
      · rename_i hmodel
        split
        · exact ⟨_, rfl⟩
        · rename_i hmessages
          have hnobody := (h.resolve_left hmodel).resolve_left hmessages
          exact ⟨_, withNode_of_nobody agents hnobody ..⟩
    obtain ⟨fault, hfault⟩ := hdispatch
    exact ⟨fault.refusal, by rw [chat, hfault]⟩

theorem dispatches_embeddings (r : EmbeddingsRequest) :
    Dispatches f (f.CannotEmbed r) (f.embeddings agents r) where
  same := embeddings_induction ⟨rfl, rfl⟩ (SameRecords.clientFor f agents)
    (fun _ _ _ h => ⟨h.registry, h.queue⟩) r
  refused h := by
    have hdispatch : ∃ fault, f.dispatchEmbeddings agents r = (.error fault, f) := by
      unfold dispatchEmbeddings
      split
      · exact ⟨_, rfl⟩
      · rename_i hmodel
        split
        · exact ⟨_, rfl⟩
        · rename_i hinput
          have hnobody := (h.resolve_left hmodel).resolve_left hinput
          exact ⟨_, withNode_of_nobody agents hnobody ..⟩
    obtain ⟨fault, hfault⟩ := hdispatch
    exact ⟨fault.refusal, by rw [embeddings, hfault]⟩

end

end Fleet

/-! ### What handling a request comes to -/

open Fleet (SameRecords)

/-- The outcome of handling a request: `wrong` says that something is wrong with it that shows
before a node is called on, `interactive` that it is for a chat completion or for embeddings. -/
structure Handled (f : Fleet) (wrong interactive : Prop) (outcome : Response × Fleet) : Prop where
  /-- A refusal changes no node's record and no job. -/
  refused : 400 ≤ outcome.1.status → f.SameRecords outcome.2
  /-- A request that something is wrong with is refused, and nothing changes at all. -/
  early : wrong → 400 ≤ outcome.1.status ∧ outcome.2 = f
  /-- Other refusals are those of dispatches. -/
  late : 400 ≤ outcome.1.status → wrong ∨ interactive
  /-- Whatever comes of a dispatch, it changes no node's record and no job. -/
  dispatched : interactive → f.SameRecords outcome.2

namespace Handled
variable {f g : Fleet} {wrong interactive : Prop} {response response' : Response}

theorem of_wrong (h : wrong) (hstatus : 400 ≤ response.status) :
    Handled f wrong interactive (response, f) :=
  ⟨fun _ => ⟨rfl, rfl⟩, fun _ => ⟨hstatus, rfl⟩, fun _ => .inl h, fun _ => ⟨rfl, rfl⟩⟩

theorem of_done (h : ¬ wrong) (hi : ¬ interactive) (hstatus : response.status < 400) :
    Handled f wrong interactive (response, g) where
  refused hlate := absurd hlate (Nat.not_le.2 hstatus)
  early hwrong := absurd hwrong h
  late hlate := absurd hlate (Nat.not_le.2 hstatus)
  dispatched hdispatched := absurd hdispatched hi

/-- A request that asks for nothing to be changed. -/
theorem of_same (h : ¬ wrong) (hstatus : response.status < 400) :
    Handled f wrong interactive (response, f) where
  refused _ := ⟨rfl, rfl⟩
  early hwrong := absurd hwrong h
  late hlate := absurd hlate (Nat.not_le.2 hstatus)
  dispatched _ := ⟨rfl, rfl⟩

/-- Whatever is made of the outcome of a dispatch, as long as a refusal is not lost in it. -/
theorem of_dispatch {α : Type} {outcome : Except Refusal α × Fleet}
    {answer : Response × Fleet} (h : f.Dispatches wrong outcome) (hi : interactive)
    (herror : ∀ r g, outcome = (.error r, g) → answer.2 = g ∧ 400 ≤ answer.1.status)
    (hok : ∀ a g, outcome = (.ok a, g) → answer.2 = g) :
    Handled f wrong interactive answer := by
  have hsame : f.SameRecords answer.2 := by
    obtain ⟨result, g⟩ := outcome
    cases result with
    | error r =>
      rw [(herror r g rfl).1]
      exact h.same
    | ok a =>
      rw [hok a g rfl]
      exact h.same
  refine ⟨fun _ => hsame, fun hwrong => ?_, fun _ => .inr hi, fun _ => hsame⟩
  obtain ⟨r, hr⟩ := h.refused hwrong
  obtain ⟨hfleet, hstatus⟩ := herror r f hr
  exact ⟨hstatus, hfleet⟩

theorem of_status (h : Handled f wrong interactive (response, g))
    (hstatus : response'.status = response.status) :
    Handled f wrong interactive (response', g) where
  refused hlate := h.refused (hstatus ▸ hlate)
  early hwrong := ⟨hstatus ▸ (h.early hwrong).1, (h.early hwrong).2⟩
  late hlate := h.late (hstatus ▸ hlate)
  dispatched := h.dispatched

end Handled

/-- A body that cannot be read as what is wanted, or that says something wrong. -/
def BadBody {α : Type} (s : Json.Shape α) (body : List UInt8) (wrong : α → Prop) : Prop :=
  match readBody s body with
  | .ok a => wrong a
  | .error _ => True

/-! ### The control surface -/

namespace Rpc

namespace Endpoint

/-- What the endpoint can find wrong with a request. -/
def Rejects (f : Fleet) (body : List UInt8) : Endpoint → Prop
  | .health | .nodes => False
  | .job segment =>
    match Utf8.decode? (Percent.decodeText segment) with
    | some id => f.queue.get? id = none
    | none => True
  | .register => BadBody RegisterRequest.shape body fun r => ∀ n, r.node = some n → n.id.isEmpty
  | .heartbeat => BadBody HeartbeatRequest.shape body fun r => f.registry.get? r.nodeId = none
  | .update =>
    BadBody UpdateRequest.shape body fun r =>
      r.capabilities = none ∨ f.registry.get? r.nodeId = none
  | .submit =>
    BadBody Submission.shape body fun r =>
      r.jobId.isEmpty ∨ JobKind.ofName? r.jobType = none ∨ (f.queue.get? r.jobId).isSome
  | .chat => BadBody ChatRequest.shape body f.CannotChat
  | .embeddings => BadBody EmbeddingsRequest.shape body f.CannotEmbed

def isInteractive : Endpoint → Bool
  | .chat | .embeddings => true
  | _ => false

end Endpoint

/-- What the surface can find wrong with a request before a node is called on. -/
def Wrong (f : Fleet) (r : Request) : Prop :=
  match Endpoint.ofPath? r.path with
  | none => True
  | some e =>
    e.method.accepts r.method = false ∨ (e.method = .post ∧ exceeds bodyLimit r.body = true) ∨
      e.Rejects f r.body

/-- The request is for a chat completion or for embeddings. -/
def Interactive (r : Request) : Prop := ∃ e, Endpoint.ofPath? r.path = some e ∧ e.isInteractive

theorem status_refuse (r : Refusal) : 400 ≤ (refuse r).status := by
  change 400 ≤ r.kind.status
  cases r.kind <;> decide

section
variable {f : Fleet} {α : Type} {interactive : Prop}

theorem handled_withBody {s : Json.Shape α} {wrong : α → Prop} {operation : α → Response × Fleet}
    (h : ∀ a, Handled f (wrong a) interactive (operation a)) (body : List UInt8) :
    Handled f (BadBody s body wrong) interactive (withBody f s body operation) := by
  unfold withBody BadBody
  cases readBody s body with
  | ok a => exact h a
  | error r => exact .of_wrong trivial (status_refuse r)

theorem handled_respond {wrong : Prop} {outcome : Except Refusal α × Fleet}
    (h : Fleet.Refuses f wrong outcome) (hi : ¬ interactive) (s : Json.Shape α) :
    Handled f wrong interactive (respond s outcome) := by
  by_cases hwrong : wrong
  · obtain ⟨r, rfl⟩ := h.refused hwrong
    exact .of_wrong hwrong (status_refuse r)
  · obtain ⟨a, ha⟩ := h.done hwrong
    obtain ⟨result, g⟩ := outcome
    obtain rfl : result = .ok a := ha
    exact .of_done hwrong hi (show 200 < 400 by decide)

end

theorem handled_serve (f : Fleet) (agents : Agents) (now : Instant) (e : Endpoint)
    (body : List UInt8) :
    Handled f (e.Rejects f body) (e.isInteractive = true) (serve f agents now e body) := by
  cases e with
  | health => exact .of_same not_false (show 200 < 400 by decide)
  | nodes => exact .of_same not_false (show 200 < 400 by decide)
  | job segment =>
    simp only [serve, Endpoint.Rejects]
    cases Utf8.decode? (Percent.decodeText segment) with
    | some id => exact handled_respond (f.refuses_jobStatus id) Bool.false_ne_true _
    | none => exact .of_wrong trivial (show 400 ≤ 400 by decide)
  | register =>
    refine handled_withBody (fun r => ?_) body
    exact handled_respond (f.refuses_registerNode now r) Bool.false_ne_true _
  | heartbeat =>
    refine handled_withBody (fun r => ?_) body
    exact handled_respond (f.refuses_heartbeat now r) Bool.false_ne_true _
  | update =>
    refine handled_withBody (fun r => ?_) body
    exact handled_respond (f.refuses_updateNode now r) Bool.false_ne_true _
  | submit =>
    refine handled_withBody (fun r => ?_) body
    exact handled_respond (f.refuses_submitJob now r) Bool.false_ne_true _
  | chat =>
    refine handled_withBody (fun r => ?_) body
    refine .of_dispatch (f.dispatches_chat agents r) rfl (fun fault g h => ?_) fun items g h => ?_
    · rw [h]
      exact ⟨rfl, status_refuse fault⟩
    · rw [h]
  | embeddings =>
    refine handled_withBody (fun r => ?_) body
    unfold respond
    refine .of_dispatch (f.dispatches_embeddings agents r) rfl (fun fault g h => ?_) fun a g h => ?_
    · rw [h]
      exact ⟨rfl, status_refuse fault⟩
    · rw [h]

theorem handled (f : Fleet) (agents : Agents) (now : Instant) (r : Request) :
    Handled f (Wrong f r) (Interactive r) (handle f agents now r) := by
  unfold handle Wrong Interactive
  cases Endpoint.ofPath? r.path with
  | none => exact .of_wrong trivial (show 400 ≤ 404 by decide)
  | some e =>
    have hserve := handled_serve f agents now e r.body
    simp only [Option.some.injEq, exists_eq_left']
    split
    · rename_i haccepts
      split
      · rename_i hlong
        exact .of_wrong (.inr (.inl hlong)) (show 400 ≤ 413 by decide)
      · rename_i hlong
        -- Method and length are right, so only the endpoint can find something wrong.
        have hwrong : e.Rejects f r.body ↔ e.method.accepts r.method = false ∨
            (e.method = .post ∧ exceeds bodyLimit r.body = true) ∨ e.Rejects f r.body := by
          simp [haccepts, hlong]
        rw [← hwrong]
        refine hserve.of_status ?_
        split <;> rfl
    · rename_i haccepts
      exact .of_wrong (.inl (Bool.eq_false_iff.2 haccepts)) (show 400 ≤ 405 by decide)

end Rpc

/-! ### The gateway -/

namespace Gateway

namespace Endpoint

def Rejects (f : Fleet) (body : List UInt8) : Endpoint → Prop
  | .health | .nodes => False
  | .chat => BadBody ChatRequest.shape body fun r => f.CannotChat r.toInternal
  | .embeddings => BadBody EmbeddingsRequest.shape body fun r => f.CannotEmbed r.toInternal

def isInteractive : Endpoint → Bool
  | .chat | .embeddings => true
  | _ => false

/-- The client must present the key and does not. -/
def Bars (key : ApiKey) (r : Request) (e : Endpoint) : Prop :=
  e.isProtected = true ∧ ∃ fault, key.authenticate (r.header "authorization") = .error fault

end Endpoint

/-- What the surface can find wrong with a request before a node is called on; with a preflight,
nothing. -/
def Wrong (f : Fleet) (key : ApiKey) (r : Request) : Prop :=
  r.method ≠ "OPTIONS" ∧
    match Endpoint.ofPath? r.path with
    | none => True
    | some e =>
      e.Bars key r ∨ e.method.accepts r.method = false ∨
        (e.method = .post ∧ exceeds bodyLimit r.body = true) ∨ e.Rejects f r.body

def Interactive (r : Request) : Prop := ∃ e, Endpoint.ofPath? r.path = some e ∧ e.isInteractive

theorem status_refuse (r : Refusal) : 400 ≤ (refuse r).status := by
  change 400 ≤ r.kind.gatewayStatus
  cases r.kind <;> decide

theorem handled_serve (f : Fleet) (agents : Agents) (e : Endpoint) (body : List UInt8) :
    Handled f (e.Rejects f body) (e.isInteractive = true) (serve f agents e body) := by
  cases e with
  | health => exact .of_same not_false (show 200 < 400 by decide)
  | nodes => exact .of_same not_false (show 200 < 400 by decide)
  | chat =>
    simp only [serve, Endpoint.Rejects, BadBody]
    cases readBody ChatRequest.shape body with
    | error refusal => exact .of_wrong trivial (status_refuse refusal)
    | ok r =>
      refine .of_dispatch (f.dispatches_chat agents r.toInternal) rfl (fun fault g h => ?_)
        fun items g h => ?_
      · simp only [h]
        exact ⟨trivial, status_refuse fault⟩
      · simp only [h]
  | embeddings =>
    simp only [serve, Endpoint.Rejects, BadBody]
    cases readBody EmbeddingsRequest.shape body with
    | error refusal => exact .of_wrong trivial (status_refuse refusal)
    | ok r =>
      refine .of_dispatch (f.dispatches_embeddings agents r.toInternal) rfl (fun fault g h => ?_)
        fun response g h => ?_
      · simp only [h]
        exact ⟨trivial, status_refuse fault⟩
      · simp only [h]

theorem status_fitted (e : Endpoint) (r : Request) (response : Response) :
    (fitted e r response).status = response.status := by
  unfold fitted
  split <;> rfl

theorem handled_route (f : Fleet) (agents : Agents) (key : ApiKey) {r : Request}
    (hmethod : r.method ≠ "OPTIONS") :
    Handled f (Wrong f key r) (Interactive r) (route f agents key r) := by
  unfold route Wrong Interactive
  cases Endpoint.ofPath? r.path with
  | none => exact .of_wrong ⟨hmethod, trivial⟩ (show 400 ≤ 404 by decide)
  | some e =>
    have hserve := handled_serve f agents e r.body
    simp only [Option.some.injEq, exists_eq_left']
    cases hadmitted : (if e.isProtected then key.authenticate (r.header "authorization")
      else .ok ()) with
    | error fault =>
      have hbars : e.Bars key r := by
        cases hprotected : e.isProtected with
        | true =>
          rw [if_pos hprotected] at hadmitted
          exact ⟨hprotected, fault, hadmitted⟩
        | false =>
          rw [hprotected] at hadmitted
          cases hadmitted
      have hstatus : 400 ≤ (fitted e r (.ofShape ErrorBody.shape 401 fault.body)).status := by
        rw [status_fitted]
        exact (by decide : 400 ≤ 401)
      refine .of_wrong ⟨hmethod, .inl hbars⟩ ?_
      -- The answer may be written otherwise for the method, but has that status.
      split <;> exact hstatus
    | ok admitted =>
      have hbars : ¬ e.Bars key r := by
        rintro ⟨hprotected, fault, hfault⟩
        rw [if_pos hprotected, hfault] at hadmitted
        cases hadmitted
      dsimp only
      split
      · rename_i hrefuses
        have haccepts : e.method.accepts r.method = false := by simpa using hrefuses
        exact .of_wrong ⟨hmethod, .inr (.inl haccepts)⟩ (show 400 ≤ 405 by decide)
      · rename_i haccepts
        split
        · rename_i hlong
          exact .of_wrong ⟨hmethod, .inr (.inr (.inl hlong))⟩ (show 400 ≤ 413 by decide)
        · rename_i hlong
          have hwrong : e.Rejects f r.body ↔ r.method ≠ "OPTIONS" ∧
              (e.Bars key r ∨ e.method.accepts r.method = false ∨
                (e.method = .post ∧ exceeds bodyLimit r.body = true) ∨ e.Rejects f r.body) := by
            have haccepts : e.method.accepts r.method = true := by simpa using haccepts
            simp [hmethod, hbars, haccepts, hlong]
          rw [← hwrong]
          exact hserve.of_status (status_fitted ..)

theorem status_preflight (r : Request) : (preflight r).status = 200 := by
  unfold preflight
  split <;> rfl

theorem handled (f : Fleet) (agents : Agents) (key : ApiKey) (r : Request) :
    Handled f (Wrong f key r) (Interactive r) (handle f agents key r) := by
  unfold handle
  split
  · rename_i hmethod
    have hquiet : ¬ Wrong f key r := fun hwrong => hwrong.1 (beq_iff_eq.1 hmethod)
    exact .of_same hquiet (by rw [status_preflight]; decide)
  · rename_i hmethod
    exact (handled_route f agents key (fun h => hmethod (beq_iff_eq.2 h))).of_status rfl

end Gateway

/-- Whatever is asked of either surface in whatever state: a refusal leaves the nodes' records and
the jobs as they are, and all of the fleet if the request was refused before a node was called on;
chat completions and embeddings leave the records and the jobs as they are in any case. -/
theorem refused_without_effect (f : Fleet) (agents : Agents) (now : Instant)
    (key : Gateway.ApiKey) (r : Request) :
    Handled f (Rpc.Wrong f r) (Rpc.Interactive r) (Rpc.handle f agents now r) ∧
      Handled f (Gateway.Wrong f key r) (Gateway.Interactive r)
        (Gateway.handle f agents key r) :=
  ⟨Rpc.handled f agents now r, Gateway.handled f agents key r⟩

end InferenceFleet
