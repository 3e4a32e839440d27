import InferenceFleet.Proofs.Fleet.Uninterrupted
import InferenceFleet.Proofs.Relay

/-!
# The interactive and the queued path

A request is served while its caller waits, or as a job. Both select a node, get its client and ask
its agent; from the same fleet the agent gets the same request, and the record of the job says what
the waiting caller is told (`Job.TellsFault`, `Job.TellsItems`).
-/

namespace InferenceFleet

namespace Job

structure IsFailed (k : Job) (message : String) : Prop where
  status : k.status = .failed
  errorMessage : k.errorMessage = some message
  result : k.result = none

structure IsCompleted (k : Job) (result : String) : Prop where
  status : k.status = .completed
  result : k.result = some result
  errorMessage : k.errorMessage = none

/-- The record says what a caller whose request is not served is told. -/
inductive TellsFault (k : Job) : DispatchFault → Prop where
  | noNode {fault : NoNode} : k.IsFailed (DispatchFault.noNode fault).message →
    TellsFault k (.noNode fault)
  | node {id : String} {source : AgentFault} : k.assignedNode = some id →
    k.IsFailed ("dispatch to node " ++ id ++ " failed: " ++ source.message) →
    TellsFault k (.node id source)

/-- The record says what a caller that receives the items from the node `nodeId` is told. -/
inductive TellsItems (k : Job) (nodeId : String) : List Item → Prop where
  | completed {chunks : List Chunk} :
    k.IsCompleted ((chunks.getLast?.map Chunk.shape.encode).getD "") →
    TellsItems k nodeId (chunks.map .ok)
  | failed {chunks : List Chunk} {source : AgentFault} :
    k.IsFailed ("dispatch to node " ++ nodeId ++ " failed: " ++ source.message) →
    TellsItems k nodeId (chunks.map .ok ++ [.error source])

end Job

namespace Outcome

/-- Items after the first failure do not count. -/
theorem ofItems_untilFault (nodeId : String) (last : Option Chunk) (items : List Item) :
    ofItems nodeId last items = ofItems nodeId last (untilFault items) := by
  induction items generalizing last with
  | nil => rfl
  | cons x items ih =>
    cases x with
    | ok chunk => exact ih (some chunk)
    | error fault => rfl

theorem ofItems_ok (nodeId : String) (last : Option Chunk) (chunks : List Chunk) :
    ofItems nodeId last (chunks.map .ok) = .ofLast (chunks.getLast?.or last) := by
  induction chunks generalizing last with
  | nil => rfl
  | cons chunk chunks ih =>
    rw [List.map_cons, ofItems, ih, List.getLast?_cons]
    cases chunks.getLast? <;> rfl

theorem ofItems_error (nodeId : String) (last : Option Chunk) (chunks : List Chunk)
    (fault : AgentFault) : ofItems nodeId last (chunks.map .ok ++ [.error fault]) =
      .failed (.dispatch nodeId fault) := by
  induction chunks generalizing last with
  | nil => rfl
  | cons chunk chunks ih => exact ih (some chunk)

theorem assignedNode_note (o : Outcome) (now : Instant) (j : Job) :
    (o.note now j).assignedNode = j.assignedNode := by
  cases o <;> rfl

/-- A job whose node streams the items ends as the items up to the first failure say. -/
theorem note_ofItems (nodeId : String) (now : Instant) (j : Job) (items : List Item) :
    ((ofItems nodeId none items).note now j).TellsItems nodeId (untilFault items) := by
  have hshape := ofItems_untilFault nodeId none items
  rcases untilFault_cases items with ⟨chunks, huntil⟩ | ⟨chunks, source, huntil⟩
  · rw [huntil, ofItems_ok] at hshape
    rw [hshape, huntil, Option.or_none]
    exact .completed ⟨rfl, rfl, rfl⟩
  · rw [huntil, ofItems_error] at hshape
    rw [hshape, huntil]
    exact .failed ⟨rfl, rfl, rfl⟩

end Outcome

theorem Payload.read_of_toOption {j : Job} {payload : Payload}
    (h : (Payload.read j).toOption = some payload) : Payload.read j = .ok payload := by
  cases hread : Payload.read j with
  | ok other =>
    rw [hread] at h
    rw [Option.some.inj h]
  | error fault =>
    rw [hread] at h
    cases h

namespace Fleet
variable {f : Fleet} {i : Nat} {t : Task} {j : Job} {payload : Payload} {node : Node}

/-- The two fleets have asked the same agents for the same, and have the same clients. -/
structure CallsAlike (f g : Fleet) : Prop where
  asked : f.asked = g.asked
  dialled : f.dialled = g.dialled
  clients : f.clients = g.clients

/-! ### A job whose task starts -/

section Job
variable (agents : Agents) (now : Instant) (ht : f.processor.tasks[i]? = some t)
  (hphase : t.phase = .starting) (hj : f.queue.get? t.job.id = some j)
  (hstatus : j.status = .assigned) (hread : Payload.read t.job = .ok payload)

include ht hphase hj hstatus hread

theorem finish_of_noNode {fault : NoNode}
    (hselect : f.registry.select payload.model = .error fault) :
    (f.finish agents now i).CallsAlike f ∧ (f.finish agents now i).queue.get? t.job.id =
      some ((Outcome.failed (.noNode fault)).note now j) := by
  have hcomplete : f.complete agents now t.job t.phase = (.failed (.noNode fault), f) := by
    rw [hphase]
    simp only [complete, execute, hread, dispatch, hselect]
  rw [finish_eq agents now ht, hcomplete]
  exact ⟨⟨rfl, rfl, rfl⟩, Outcome.get?_record hj (by rw [hstatus]; rfl) _ now⟩

theorem finish_of_select (hselect : f.registry.select payload.model = .ok node) :
    let c := call agents payload node (f.clientFor agents node)
    (f.finish agents now i).CallsAlike c.2 ∧
      (f.finish agents now i).queue.get? t.job.id = some (c.1.note now
        { j with status := .running, updatedAt := now, assignedNode := some node.id }) := by
  intro c
  have hmove : j.status.canMoveTo .running = true := by
    rw [hstatus]
    rfl
  obtain ⟨hok, -, hget⟩ := Queue.advance_of_canMoveTo now
    (f := fun j => { j with assignedNode := some node.id }) (fun _ => rfl) hj hmove
  have hcomplete : f.complete agents now t.job t.phase =
      (c.1, { c.2 with
        queue := (f.queue.assign now t.job.id .running node.id).2, processor := f.processor }) := by
    rw [hphase]
    simp only [complete, execute, hread, dispatch, hselect, place]
    cases hassign : f.queue.assign now t.job.id .running node.id with
    | mk result queue =>
      obtain rfl : result = .ok () := by
        rw [Queue.assign] at hassign
        rw [hassign] at hok
        exact hok
      exact call_clientFor_work f queue f.processor agents payload node
  have hrunning := (hget t.job.id).trans (if_pos rfl)
  rw [finish_eq agents now ht, hcomplete]
  exact ⟨⟨rfl, rfl, rfl⟩, Outcome.get?_record hrunning rfl c.1 now⟩

/-- The job against a call that waits for the `answer` of the same agent. -/
theorem finish_tells_withNode {α : Type} (answer : String → Except AgentFault α)
    (hrefused : ∀ nodeId target fault, answer target = .error fault →
      agents.outcome nodeId target payload = .failed (.dispatch nodeId fault)) :
    let d := f.withNode agents payload.model fun f target => (answer target, f.ask target payload)
    (f.finish agents now i).CallsAlike d.2 ∧
      ∃ k, (f.finish agents now i).queue.get? t.job.id = some k ∧
        (∀ fault, d.1 = .error fault → k.TellsFault fault) ∧
        ∀ a, d.1 = .ok a → ∃ node target k', f.registry.select payload.model = .ok node ∧
          answer target = .ok a ∧ k'.assignedNode = some node.id ∧
          k = (agents.outcome node.id target payload).note now k' := by
  intro d
  cases hselect : f.registry.select payload.model with
  | error fault =>
    have hd : d = (.error (.noNode fault), f) := by simp only [d, withNode, hselect]
    obtain ⟨halike, hget⟩ := finish_of_noNode agents now ht hphase hj hstatus hread hselect
    rw [hd]
    refine ⟨halike, _, hget, fun _ h => ?_, fun _ h => by cases h⟩
    cases h
    exact .noNode ⟨rfl, rfl, rfl⟩
  | ok node =>
    obtain ⟨halike, hget⟩ := finish_of_select agents now ht hphase hj hstatus hread hselect
    cases hclient : f.clientFor agents node with
    | mk result g =>
      rw [hclient] at halike hget
      cases result with
      | error fault =>
        have hd : d = (.error (.node node.id fault), g) := by
          simp only [d, withNode, hselect, hclient]
        rw [hd]
        refine ⟨halike, _, hget, fun _ h => ?_, fun _ h => by cases h⟩
        cases h
        exact .node rfl ⟨rfl, rfl, rfl⟩
      | ok target =>
        cases hanswer : answer target with
        | error fault =>
          have hd : d = (.error (.node node.id fault), g.ask target payload) := by
            simp only [d, withNode, hselect, hclient, hanswer]
          rw [call, hrefused node.id target fault hanswer] at hget
          rw [hd]
          refine ⟨halike, _, hget, fun _ h => ?_, fun _ h => by cases h⟩
          cases h
          exact .node rfl ⟨rfl, rfl, rfl⟩
        | ok a =>
          have hd : d = (.ok a, g.ask target payload) := by
            simp only [d, withNode, hselect, hclient, hanswer]
          rw [hd]
          refine ⟨halike, _, hget, fun _ h => (by cases h), fun _ h => ?_⟩
          cases h
          exact ⟨node, target, _, rfl, hanswer, rfl, rfl⟩

end Job

/-! ### A caller that waits -/

theorem dispatchChat_eq (agents : Agents) {r : ChatRequest} (hmodel : r.model ≠ "")
    (hmessages : r.messages ≠ []) : f.dispatchChat agents r = f.withNode agents r.model
      fun f target => (agents.chat target r, f.ask target (.chat r)) := by
  have hmodel' : ¬ r.model.isEmpty = true := fun h => hmodel (String.isEmpty_iff.1 h)
  have hmessages' : ¬ r.messages.isEmpty = true := fun h => hmessages (List.isEmpty_iff.1 h)
  rw [dispatchChat, if_neg hmodel', if_neg hmessages']

theorem dispatchEmbeddings_eq (agents : Agents) {r : EmbeddingsRequest} (hmodel : r.model ≠ "")
    (hinput : r.input ≠ []) : f.dispatchEmbeddings agents r = f.withNode agents r.model
      fun f target => (agents.embeddings target r, f.ask target (.embeddings r)) := by
  have hmodel' : ¬ r.model.isEmpty = true := fun h => hmodel (String.isEmpty_iff.1 h)
  have hinput' : ¬ r.input.isEmpty = true := fun h => hinput (List.isEmpty_iff.1 h)
  rw [dispatchEmbeddings, if_neg hmodel', if_neg hinput']

/-- A request is served for a caller that waits, or as a job whose task starts now. Either way the
agents get the same. The record of the job tells what the caller is told: why the request is not
served, or what the items say that the caller receives if it stays to the end, or the answer. -/
theorem finish_tells (agents : Agents) (now : Instant) (ht : f.processor.tasks[i]? = some t)
    (hphase : t.phase = .starting) (hj : f.queue.get? t.job.id = some j)
    (hstatus : j.status = .assigned) :
    (∀ r : ChatRequest, Payload.read t.job = .ok (.chat r) → r.model ≠ "" → r.messages ≠ [] →
      (f.finish agents now i).CallsAlike (f.dispatchChat agents r).2 ∧
      ∃ k, (f.finish agents now i).queue.get? t.job.id = some k ∧
        (∀ fault, (f.dispatchChat agents r).1 = .error fault → k.TellsFault fault) ∧
        ∀ items, (f.dispatchChat agents r).1 = .ok items →
          ∃ node, f.registry.select r.model = .ok node ∧ k.assignedNode = some node.id ∧
            ∀ moves, (Relay.run { source := items } moves).Done →
              k.TellsItems node.id (Relay.run { source := items } moves).received) ∧
    ∀ r : EmbeddingsRequest, Payload.read t.job = .ok (.embeddings r) → r.model ≠ "" →
      r.input ≠ [] →
      (f.finish agents now i).CallsAlike (f.dispatchEmbeddings agents r).2 ∧
      ∃ k, (f.finish agents now i).queue.get? t.job.id = some k ∧
        (∀ fault, (f.dispatchEmbeddings agents r).1 = .error fault → k.TellsFault fault) ∧
        ∀ response, (f.dispatchEmbeddings agents r).1 = .ok response →
          ∃ node, f.registry.select r.model = .ok node ∧ k.assignedNode = some node.id ∧
            k.IsCompleted (EmbeddingsResponse.shape.encode response) := by
  constructor
  · intro r hread hmodel hmessages
    rw [dispatchChat_eq agents hmodel hmessages]
    obtain ⟨halike, k, hget, hfault, hitems⟩ := finish_tells_withNode agents now ht hphase hj
      hstatus hread (agents.chat · r) fun nodeId target fault h => by simp only [Agents.outcome, h]
    refine ⟨halike, k, hget, hfault, fun items h => ?_⟩
    obtain ⟨node, target, k', hselect, hanswer, hassigned, rfl⟩ := hitems items h
    have houtcome : agents.outcome node.id target (.chat r) = .ofItems node.id none items := by
      simp only [Agents.outcome, hanswer]
    rw [houtcome]
    refine ⟨node, hselect, ?_, fun moves hdone => ?_⟩
    · rw [Outcome.assignedNode_note, hassigned]
    · rw [Relay.received_of_done hdone]
      exact Outcome.note_ofItems node.id now k' items
  · intro r hread hmodel hinput
    rw [dispatchEmbeddings_eq agents hmodel hinput]
    obtain ⟨halike, k, hget, hfault, hresponse⟩ := finish_tells_withNode agents now ht hphase hj
      hstatus hread (agents.embeddings · r)
      fun nodeId target fault h => by simp only [Agents.outcome, h]
    refine ⟨halike, k, hget, hfault, fun response h => ?_⟩
    obtain ⟨node, target, k', hselect, hanswer, hassigned, rfl⟩ := hresponse response h
    have houtcome : agents.outcome node.id target (.embeddings r) =
        .completed (EmbeddingsResponse.shape.encode response) := by
      simp only [Agents.outcome, hanswer]
    rw [houtcome]
    exact ⟨node, hselect, hassigned, rfl, rfl, rfl⟩

/-- A chat job whose node breaks off after a chunk, and a job of embeddings. -/
theorem finish_tells_broken :
    let now : Instant := .ofNanos 0
    let node : Node := { id := "n1", hostname := "h" }
    let agents : Agents := ⟨fun _ => .ok (),
      fun _ _ => .ok [.ok {}, .error (.stream "cut"), .ok {}], fun _ _ => .ok { model := "m" }⟩
    let started (job : Job) : Fleet := { Fleet.ofLimit 1 with
      registry := Registry.empty.register now node
      queue := ⟨[], [{ job with status := .assigned }]⟩
      processor := { free := 0, loop := .acquiring, tasks := [{ job }] } }
    let chat : Job := .submitted "a" .chatCompletion "[\"m\",[[\"user\"]]]" now
    let embeddings : Job := .submitted "b" .embeddings "[\"m\",[\"x\"]]" now
    (∃ k, ((started chat).finish agents now 0).queue.get? "a" = some k ∧
      k.assignedNode = some "n1" ∧ k.TellsItems "n1" [.ok {}, .error (.stream "cut")]) ∧
    ∃ k, ((started embeddings).finish agents now 0).queue.get? "b" = some k ∧
      k.assignedNode = some "n1" ∧
      k.IsCompleted (EmbeddingsResponse.shape.encode { model := "m" }) := by
  intro now node agents started chat embeddings
  have hchat : Payload.read chat = .ok (.chat { model := "m", messages := [{ role := "user" }] }) :=
    Payload.read_of_toOption (by decide +kernel)
  have hembeddings : Payload.read embeddings = .ok (.embeddings { model := "m", input := ["x"] }) :=
    Payload.read_of_toOption (by decide +kernel)
  constructor
  · obtain ⟨htells, -⟩ := finish_tells (f := started chat) (i := 0)
      (t := { job := chat }) agents now rfl rfl (j := { chat with status := .assigned }) rfl rfl
    obtain ⟨-, k, hget, -, htold⟩ := htells _ hchat (by decide) (by decide)
    obtain ⟨m, hselect, hassigned, hitems⟩ := htold [.ok {}, .error (.stream "cut"), .ok {}] rfl
    obtain rfl := Except.ok.inj hselect
    exact ⟨k, hget, hassigned,
      hitems [.pull, .send, .receive, .pull, .send, .receive] ⟨rfl, rfl, rfl⟩⟩
  · obtain ⟨-, htells⟩ := finish_tells (f := started embeddings) (i := 0)
      (t := { job := embeddings }) agents now rfl rfl
      (j := { embeddings with status := .assigned }) rfl rfl
    obtain ⟨-, k, hget, -, htold⟩ := htells _ hembeddings (by decide) (by decide)
    obtain ⟨m, hselect, hassigned, hcompleted⟩ := htold _ rfl
    obtain rfl := Except.ok.inj hselect
    exact ⟨k, hget, hassigned, hcompleted⟩

end Fleet

end InferenceFleet
