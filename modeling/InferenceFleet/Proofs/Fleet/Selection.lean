import InferenceFleet.Proofs.Except
import InferenceFleet.Proofs.Fleet.Paths
import InferenceFleet.Proofs.Registry.Listing

/-!
# The node of a request

A task and a waiting caller both ask the registry for the node, so in one fleet they get the same
one, whatever the model (`chooses_of_leads`), or both get none (`choosesNone_of_empty`). Which one it
is follows from the calls that the registry has seen (`listing_of_calls`).
-/

namespace InferenceFleet.Fleet

/-- What is left of a dispatch once its node is chosen. -/
def callOn {α : Type} (f : Fleet) (agents : Agents) (node : Node)
    (call : Fleet → String → Except AgentFault α × Fleet) : Except DispatchFault α × Fleet :=
  match f.clientFor agents node with
  | (.error fault, f) => (.error (.node node.id fault), f)
  | (.ok target, f) =>
    match call f target with
    | (.ok a, f) => (.ok a, f)
    | (.error fault, f) => (.error (.node node.id fault), f)

/-- Every request goes to the node: that of a job, and that of a caller who waits. -/
structure Chooses (f : Fleet) (node : Node) : Prop where
  task : ∀ (t : Task) (payload : Payload), t.phase = .selecting payload →
    f.stepTask t .select = some (f, .marking payload node)
  chat : ∀ (agents : Agents) (r : ChatRequest), r.model ≠ "" → r.messages ≠ [] →
    f.dispatchChat agents r =
      f.callOn agents node fun f target => (agents.chat target r, f.ask target (.chat r))
  embeddings : ∀ (agents : Agents) (r : EmbeddingsRequest), r.model ≠ "" → r.input ≠ [] →
    f.dispatchEmbeddings agents r = f.callOn agents node fun f target =>
      (agents.embeddings target r, f.ask target (.embeddings r))

/-- No request gets a node, and nothing is done for it. -/
structure ChoosesNone (f : Fleet) : Prop where
  task : ∀ (t : Task) (payload : Payload), t.phase = .selecting payload →
    f.stepTask t .select = some (f, .ending (.failed (.noNode { model := payload.model })))
  chat : ∀ (agents : Agents) (r : ChatRequest), r.model ≠ "" → r.messages ≠ [] →
    f.dispatchChat agents r = (.error (.noNode { model := r.model }), f)
  embeddings : ∀ (agents : Agents) (r : EmbeddingsRequest), r.model ≠ "" → r.input ≠ [] →
    f.dispatchEmbeddings agents r = (.error (.noNode { model := r.model }), f)

section
variable {f : Fleet} {agents : Agents} {model : String} {node : Node} {α : Type}
  {call : Fleet → String → Except AgentFault α × Fleet}

theorem withNode_of_select (h : f.registry.select model = .ok node) :
    f.withNode agents model call = f.callOn agents node call := by
  rw [withNode, h]
  rfl

theorem withNode_of_empty (h : f.registry.list = []) :
    f.withNode agents model call = (.error (.noNode { model }), f) := by
  rw [withNode, Registry.select_eq_error_iff.2 ⟨h, rfl⟩]

theorem chooses_of_leads (hnamed : f.registry.Named) (h : f.registry.Leads node) :
    f.Chooses node := by
  have hselect (model : String) : f.registry.select model = .ok node :=
    hnamed.select_eq_ok_iff.2 h
  constructor
  case task =>
    intro t payload hphase
    simp only [stepTask, hphase, hselect]
  case chat =>
    intro agents r hmodel hmessages
    rw [dispatchChat_eq agents hmodel hmessages, withNode_of_select (hselect r.model)]
  case embeddings =>
    intro agents r hmodel hinput
    rw [dispatchEmbeddings_eq agents hmodel hinput, withNode_of_select (hselect r.model)]

theorem choosesNone_of_empty (h : f.registry.list = []) : f.ChoosesNone := by
  constructor
  case task =>
    intro t payload hphase
    simp only [stepTask, hphase, Registry.select_eq_error_iff.2 ⟨h, rfl⟩]
  case chat =>
    intro agents r hmodel hmessages
    rw [dispatchChat_eq agents hmodel hmessages, withNode_of_empty h]
  case embeddings =>
    intro agents r hmodel hinput
    rw [dispatchEmbeddings_eq agents hmodel hinput, withNode_of_empty h]

end

open Registry in
/-- After any calls on a registry: each record is under its own id, the listing ascends by the bytes
of the ids and has what can be got, and a further call changes its own node's record only. The order
of calls on different nodes does not matter. The node selected leads the listing, there is none
just if the listing is empty, and jobs and waiting callers are served alike. -/
theorem listing_of_calls (log : Log) :
    (∀ id n, (empty.run log).get? id = some n → n.id = id) ∧
    ((empty.run log).list.Pairwise fun m n => Utf8.encode m.id < Utf8.encode n.id) ∧
    (∀ id n, (empty.run log).get? id = some n ↔ n ∈ (empty.run log).list ∧ n.id = id) ∧
    (∀ now c id, id ≠ c.id → ((empty.run log).call now c).get? id = (empty.run log).get? id) ∧
    (∀ log' : Log, (∀ id, log'.on id = log.on id) →
      (empty.run log').list = (empty.run log).list) ∧
    (∀ model n, (empty.run log).select model = .ok n ↔ (empty.run log).Leads n) ∧
    (∀ model fault, (empty.run log).select model = .error fault ↔
      (empty.run log).list = [] ∧ fault = { model }) ∧
    ∀ f : Fleet, f.registry = empty.run log →
      (∀ n, (empty.run log).Leads n → f.Chooses n) ∧
      ((empty.run log).list = [] → f.ChoosesNone) := by
  have hnamed := named_run_empty log
  refine ⟨hnamed, hnamed.list_byteAscending, fun id n => hnamed.get?_eq_some_iff,
    fun now c id hid => ?_, fun log' h => ?_, fun model n => hnamed.select_eq_ok_iff,
    fun model fault => select_eq_error_iff, fun f hf => ⟨fun n hn => ?_, fun hempty => ?_⟩⟩
  · rw [get?_call, if_neg hid]
  · rw [run_congr h]
  · rw [← hf] at hnamed hn
    exact chooses_of_leads hnamed hn
  · rw [← hf] at hempty
    exact choosesNone_of_empty hempty

open Registry in
/-- Calls on two nodes in two interleavings. The bytes of `é` come after those of `z`. -/
theorem listing_of_calls_interleaved :
    let node (id : String) : Node := { id, hostname := "h" }
    let at' (n : Nat) : Instant := .ofNanos n
    let log : Log := [(at' 1, .register (node "é")), (at' 2, .register (node "z")),
      (at' 3, .heartbeat "é"), (at' 4, .heartbeat "z")]
    let log' : Log := [(at' 2, .register (node "z")), (at' 4, .heartbeat "z"),
      (at' 1, .register (node "é")), (at' 3, .heartbeat "é")]
    let f : Fleet := { Fleet.ofLimit 1 with registry := empty.run log }
    (∀ id, log'.on id = log.on id) ∧ (empty.run log').list = (empty.run log).list ∧
      ((empty.run log).list.map fun n => (n.id, Utf8.encode n.id)) =
        [("z", [0x7A]), ("é", [0xC3, 0xA9])] ∧
      (empty.run log).Leads { node "z" with lastSeen := some (at' 4) } ∧
      f.Chooses { node "z" with lastSeen := some (at' 4) } := by
  intro node at' log log' f
  have hon : ∀ id, log'.on id = log.on id := by
    intro id
    by_cases hz : "z" = id
    · subst hz
      rfl
    by_cases he : "é" = id
    · subst he
      rfl
    · simp [log, log', node, Log.on, Call.id, hz, he]
  obtain ⟨-, -, -, -, hlisting, hselect, -, hserved⟩ := listing_of_calls log
  have hleads : (empty.run log).Leads { node "z" with lastSeen := some (at' 4) } :=
    (hselect "m" _).1 (of_toOption (by decide +kernel))
  exact ⟨hon, hlisting log' hon, by decide +kernel, hleads, (hserved f rfl).1 _ hleads⟩

end InferenceFleet.Fleet
