import InferenceFleet.Proofs.Fleet.CachedClients

/-!
# Keeping clients changes nothing

A fleet that takes its turns one after the other and keeps its clients gives the same answers as one
that dials anew each time, and its agents are asked the same.
-/

namespace InferenceFleet

namespace Fleet
variable {f g : Fleet} {dial : String → Except AgentFault Unit} {agents : Agents} {node : Node}
  {now : Instant}

/-! ### With and without clients -/

theorem alike_clientFor (f : Fleet) (agents : Agents) (n : Node) :
    f.Alike (f.clientFor agents n).2 := by
  unfold clientFor connect
  dsimp only
  split
  · exact ⟨_, _, rfl⟩
  · exact ⟨_, _, rfl⟩

/-- A client that is kept is the one that a dial would bring. -/
theorem Cached.clientFor_eq (h : f.Cached agents.dial)
    (hnode : f.registry.target? node.id = some node.agentTarget) :
    (f.clientFor agents node).1 = (agents.dial node.agentTarget).map fun _ => node.agentTarget := by
  unfold Fleet.clientFor connect
  dsimp only
  split
  · rename_i client hclient
    have hlookup := (h.sound.client?_slotFor_self node.id).symm.trans hclient
    obtain rfl : node.agentTarget = client :=
      Option.some.inj (hnode.symm.trans (h.target?_of_lookup? hlookup))
    rw [h.dialled node.id _ hlookup]
    rfl
  · rfl

/-- The two answers are the same, and so are the fleets but for their clients. -/
def Agree {α : Type} (a b : α × Fleet) : Prop := a.1 = b.1 ∧ a.2.Alike b.2

theorem Agree.map {α β : Type} {a b : α × Fleet} (h : Agree a b) (answer : α → β) :
    Agree (a.map answer id) (b.map answer id) := ⟨congrArg answer h.1, h.2⟩

section Pair
variable (hfg : f.Alike g)
include hfg

theorem Alike.registry : g.registry = f.registry := by
  obtain ⟨c, dialled, rfl⟩ := hfg
  rfl

theorem Alike.queue : g.queue = f.queue := by
  obtain ⟨c, dialled, rfl⟩ := hfg
  rfl

theorem agree_submitJob (now : Instant) (r : Submission) :
    Agree (f.submitJob now r) (g.submitJob now r) := by
  obtain ⟨c, dialled, rfl⟩ := hfg
  simp only [submitJob, withClients]
  split
  · exact ⟨rfl, c, dialled, rfl⟩
  · split
    · exact ⟨rfl, c, dialled, rfl⟩
    · split
      · exact ⟨rfl, c, dialled, rfl⟩
      · exact ⟨rfl, c, dialled, rfl⟩

theorem agree_registerNode (now : Instant) (r : RegisterRequest) :
    Agree (f.registerNode now r) (g.registerNode now r) := by
  obtain ⟨c, dialled, rfl⟩ := hfg
  simp only [registerNode]
  split
  · exact ⟨rfl, c, dialled, rfl⟩
  · split
    · exact ⟨rfl, c, dialled, rfl⟩
    · exact ⟨rfl, _, dialled, rfl⟩

theorem agree_heartbeat (now : Instant) (r : HeartbeatRequest) :
    Agree (f.heartbeat now r) (g.heartbeat now r) := by
  obtain ⟨c, dialled, rfl⟩ := hfg
  simp only [heartbeat, withClients]
  split
  · exact ⟨rfl, c, dialled, rfl⟩
  · exact ⟨rfl, c, dialled, rfl⟩

theorem agree_updateNode (now : Instant) (r : UpdateRequest) :
    Agree (f.updateNode now r) (g.updateNode now r) := by
  obtain ⟨c, dialled, rfl⟩ := hfg
  simp only [updateNode, withClients]
  split
  · exact ⟨rfl, c, dialled, rfl⟩
  · split
    · exact ⟨rfl, c, dialled, rfl⟩
    · exact ⟨rfl, c, dialled, rfl⟩

theorem agree_sweepNode (now : Instant) (timeout : Nat) (id : String) :
    Agree (f.sweepNode now timeout id) (g.sweepNode now timeout id) := by
  obtain ⟨c, dialled, rfl⟩ := hfg
  simp only [sweepNode, withClients]
  split
  · exact ⟨rfl, _, dialled, rfl⟩
  · exact ⟨rfl, c, dialled, rfl⟩

theorem agree_sweepNodes (now : Instant) (timeout : Nat) (ids : List String) :
    Agree (f.sweepNodes now timeout ids) (g.sweepNodes now timeout ids) := by
  induction ids generalizing f g with
  | nil => exact ⟨rfl, hfg⟩
  | cons id ids ih =>
    obtain ⟨hremoved, hfleet⟩ := agree_sweepNode hfg now timeout id
    obtain ⟨hothers, hrest⟩ := ih hfleet
    refine ⟨?_, hrest⟩
    simp only [sweepNodes]
    rw [hremoved, hothers]

theorem agree_sweep (now : Instant) (timeout : Nat) :
    Agree (f.sweep now timeout) (g.sweep now timeout) := by
  rw [sweep, sweep, hfg.registry]
  exact agree_sweepNodes hfg now timeout _

/-! ### Dispatches -/

variable (hf : f.Cached agents.dial) (hg : g.Cached agents.dial)
include hf hg

theorem agree_clientFor (hnode : f.registry.get? node.id = some node) :
    Agree (f.clientFor agents node) (g.clientFor agents node) := by
  have htarget := Registry.target?_of_get? hnode
  refine ⟨?_, (f.alike_clientFor agents node).symm.trans (hfg.trans (g.alike_clientFor ..))⟩
  rw [hf.clientFor_eq htarget, hg.clientFor_eq (by rw [hfg.registry, htarget])]

theorem agree_withNode {α : Type} (model : String) {answer : String → Except AgentFault α}
    {request : Payload} :
    Agree (f.withNode agents model fun f target => (answer target, f.ask target request))
      (g.withNode agents model fun f target => (answer target, f.ask target request)) := by
  unfold withNode
  rw [hfg.registry]
  cases hselect : f.registry.select model with
  | error fault => exact ⟨rfl, hfg⟩
  | ok node =>
    have hclient := agree_clientFor hfg hf hg (Registry.select_ok hf.named hselect).1
    dsimp only
    cases hf' : f.clientFor agents node with
    | mk result f' =>
      cases hg' : g.clientFor agents node with
      | mk result' g' =>
        rw [hf', hg'] at hclient
        obtain ⟨rfl, c, dialled, rfl⟩ := hclient
        cases result with
        | error fault => exact ⟨rfl, c, dialled, rfl⟩
        | ok target =>
          dsimp only
          cases answer target with
          | ok a => exact ⟨rfl, c, dialled, rfl⟩
          | error fault => exact ⟨rfl, c, dialled, rfl⟩

theorem agree_chat (r : ChatRequest) : Agree (f.chat agents r) (g.chat agents r) := by
  have hdispatch : Agree (f.dispatchChat agents r) (g.dispatchChat agents r) := by
    unfold dispatchChat
    split
    · exact ⟨rfl, hfg⟩
    · split
      · exact ⟨rfl, hfg⟩
      · exact agree_withNode hfg hf hg r.model
  unfold chat
  cases hf' : f.dispatchChat agents r with
  | mk result f' =>
    cases hg' : g.dispatchChat agents r with
    | mk result' g' =>
      rw [hf', hg'] at hdispatch
      obtain ⟨rfl, halike⟩ := hdispatch
      cases result with
      | ok items => exact ⟨rfl, halike⟩
      | error fault => exact ⟨rfl, halike⟩

theorem agree_embeddings (r : EmbeddingsRequest) :
    Agree (f.embeddings agents r) (g.embeddings agents r) := by
  have hdispatch : Agree (f.dispatchEmbeddings agents r) (g.dispatchEmbeddings agents r) := by
    unfold dispatchEmbeddings
    split
    · exact ⟨rfl, hfg⟩
    · split
      · exact ⟨rfl, hfg⟩
      · exact agree_withNode hfg hf hg r.model
  unfold embeddings
  cases hf' : f.dispatchEmbeddings agents r with
  | mk result f' =>
    cases hg' : g.dispatchEmbeddings agents r with
    | mk result' g' =>
      rw [hf', hg'] at hdispatch
      obtain ⟨rfl, halike⟩ := hdispatch
      cases result with
      | ok response => exact ⟨rfl, halike⟩
      | error fault => exact ⟨rfl, halike⟩

/-! ### Jobs -/

theorem agree_call (payload : Payload) (hnode : f.registry.get? node.id = some node) :
    Agree (call agents payload node (f.clientFor agents node))
      (call agents payload node (g.clientFor agents node)) := by
  have hclient := agree_clientFor hfg hf hg hnode
  cases hf' : f.clientFor agents node with
  | mk result f' =>
    cases hg' : g.clientFor agents node with
    | mk result' g' =>
      rw [hf', hg'] at hclient
      obtain ⟨rfl, c, dialled, rfl⟩ := hclient
      cases result with
      | error fault => exact ⟨rfl, c, dialled, rfl⟩
      | ok target => exact ⟨rfl, c, dialled, rfl⟩

theorem agree_execute (now : Instant) (job : Job) :
    Agree (f.execute agents now job) (g.execute agents now job) := by
  obtain ⟨c, dialled, rfl⟩ := id hfg
  unfold execute
  split
  · rename_i payload _
    simp only [dispatch, withClients]
    cases hselect : f.registry.select payload.model with
    | error fault => exact ⟨rfl, c, dialled, rfl⟩
    | ok node =>
      have hnode := (Registry.select_ok hf.named hselect).1
      simp only [place]
      cases f.queue.assign now job.id .running node.id with
      | mk result queue =>
        cases result with
        | error fault => exact ⟨rfl, c, dialled, rfl⟩
        | ok _ =>
          exact agree_call (f := { f with queue }) ⟨c, dialled, rfl⟩
            (hf.of_sameNodes ⟨rfl, rfl, rfl⟩) (hg.of_sameNodes ⟨rfl, rfl, rfl⟩) payload hnode
  · exact ⟨rfl, c, dialled, rfl⟩

theorem alike_finish (now : Instant) {i : Nat}
    (hstart : ∀ t, f.processor.tasks[i]? = some t → t.phase = .starting) :
    (f.finish agents now i).Alike (g.finish agents now i) := by
  obtain ⟨c, dialled, rfl⟩ := id hfg
  cases ht : f.processor.tasks[i]? with
  | none =>
    rw [finish_of_none agents now ht, finish_of_none (f := f.withClients c dialled) agents now ht]
    exact hfg
  | some t =>
    obtain ⟨houtcome, c', dialled', hfleet⟩ := agree_execute hfg hf hg now t.job
    rw [finish_eq agents now ht, finish_eq (f := f.withClients c dialled) agents now ht,
      hstart t ht, complete, complete, hfleet, houtcome]
    exact ⟨c', dialled', rfl⟩

theorem alike_work (now : Instant) : (f.work agents now).Alike (g.work agents now) := by
  obtain ⟨c, dialled, rfl⟩ := hfg
  obtain ⟨queue, processor, htake, htasks⟩ := f.takeUp_cases now
  have hself : f.takeUp now = { f with queue, processor } := htake f.clients f.dialled
  have hstart : ∀ t, processor.tasks[f.processor.tasks.length]? = some t → t.phase = .starting := by
    intro t ht
    rcases htasks with hsame | ⟨t', hphase, hnew⟩
    · rw [hsame, List.getElem?_eq_none (Nat.le_refl _)] at ht
      cases ht
    · rw [hnew, List.getElem?_concat_length] at ht
      rw [← Option.some.inj ht, hphase]
  have hlength : (f.withClients c dialled).processor.tasks.length = f.processor.tasks.length := rfl
  have hfinish := alike_finish (f := { f with queue, processor })
    (g := ({ f with queue, processor } : Fleet).withClients c dialled) ⟨c, dialled, rfl⟩
    (hf.of_sameNodes ⟨rfl, rfl, rfl⟩) (hg.of_sameNodes ⟨rfl, rfl, rfl⟩) now hstart
  rw [work, work, hself, htake, hlength]
  exact hfinish.run_loop now (by simp [loopMoves])

end Pair

theorem agree_take (hf : f.Cached dial) (hg : g.Cached dial) (hfg : f.Alike g) (turn : Turn) :
    Agree (f.take dial turn) (g.take dial turn) := by
  cases turn with
  | submit now r => exact (agree_submitJob hfg now r).map Answer.receipt
  | register now r => exact (agree_registerNode hfg now r).map Answer.ack
  | heartbeat now r => exact (agree_heartbeat hfg now r).map Answer.ack
  | update now r => exact (agree_updateNode hfg now r).map Answer.ack
  | sweep now timeout => exact (agree_sweep hfg now timeout).map Answer.removed
  | chat agents r =>
    have hchat : Agree (f.chat { agents with dial } r) (g.chat { agents with dial } r) :=
      agree_chat hfg hf hg r
    exact hchat.map Answer.items
  | embeddings agents r =>
    have hembeddings :
        Agree (f.embeddings { agents with dial } r) (g.embeddings { agents with dial } r) :=
      agree_embeddings hfg hf hg r
    exact hembeddings.map Answer.vectors
  | work agents now =>
    have hwork : (f.work { agents with dial } now).Alike (g.work { agents with dial } now) :=
      alike_work hfg hf hg now
    simp only [Agree, take]
    refine ⟨?_, hwork⟩
    rw [hwork.queue, hfg.queue]

theorem agree_serve (hf : f.Cached dial) (hfg : f.Alike g) (turns : List Turn) :
    Agree (f.serve dial turns) (g.serveAnew dial turns) := by
  induction turns generalizing f g with
  | nil => exact ⟨rfl, hfg⟩
  | cons turn turns ih =>
    have hcleared : f.Alike { g with clients := .empty } := hfg.trans ⟨.empty, g.dialled, rfl⟩
    have hempty : Cached dial { g with clients := .empty } :=
      .of_empty (by rw [hcleared.registry]; exact hf.named) rfl
    obtain ⟨hanswer, hafter⟩ := agree_take hf hempty hcleared turn
    obtain ⟨hanswers, hrest⟩ := ih (hf.take turn) hafter
    refine ⟨?_, hrest⟩
    simp only [serve, serveAnew]
    rw [hanswer, hanswers, takeAnew]

/-- After any turns, a fleet that keeps its clients has given the same answers as one that dials
for every dispatch, and the two differ in their clients only. Only registered nodes have a slot, and
each client is at its node's present target. A turn dials the node that it selects, or none; and a
node that two turns dial with success was registered at another target in between, or removed. -/
theorem serve_eq_serveAnew (dial : String → Except AgentFault Unit) (limit : Nat)
    (turns : List Turn) :
    let f := ((ofLimit limit).serve dial turns).2
    Agree ((ofLimit limit).serve dial turns) ((ofLimit limit).serveAnew dial turns) ∧
      (∀ id slot, f.clients.current.get? id = some slot → ∃ node, f.registry.get? id = some node) ∧
      (∀ id client, f.clients.lookup? id = some client → f.registry.target? id = some client) ∧
      (∀ turn, (f.take dial turn).2.dialled = f.dialled ∨
        ∃ model node, f.registry.select model = .ok node ∧
          (f.take dial turn).2.dialled = f.dialled ++ [node.agentTarget]) ∧
      ∀ first between second node node', f.Connects dial first node →
        (f.serve dial (first :: between)).2.Connects dial second node' → node'.id = node.id →
        ∃ early, early <+: between ∧ (f.serve dial (first :: early)).2.registry.target? node.id ≠
          f.registry.target? node.id := by
  intro f
  have hstart : Cached dial (ofLimit limit) := .of_empty (fun _ _ h => by cases h) rfl
  have hcached : f.Cached dial := hstart.serve turns
  refine ⟨agree_serve hstart (.refl _) turns, fun id slot hslot => ?_,
    fun id client => hcached.target?_of_lookup?, fun turn => ?_,
    fun first between second node node' => hcached.moved_of_connects⟩
  · cases hnode : f.registry.get? id with
    | some node => exact ⟨node, rfl⟩
    | none =>
      have htarget : f.registry.target? id = none := by
        rw [Registry.target?, hnode, Option.map_none]
      rw [hcached.current_eq_none htarget] at hslot
      cases hslot
  · rcases hcached.dialled_take turn with hsame | ⟨model, node, hselect, -, hdialled, -⟩
    · exact .inl hsame
    · exact .inr ⟨model, node, hselect, hdialled⟩

/-- A node that is dialled, asked again, moves, and is dialled once more. -/
theorem serve_eq_serveAnew_moved :
    let dial : String → Except AgentFault Unit := fun _ => .ok ()
    let now : Instant := .ofNanos 0
    let old : Node :=
      { id := "n1", hostname := "h", agentAddress := "10.0.0.1:7000", lastSeen := some now }
    let new : Node := { old with agentAddress := "10.0.0.2:7000" }
    let r : ChatRequest := { model := "m", messages := [{ role := "user", content := "hi" }] }
    let chat : Turn := .chat ⟨dial, fun _ _ => .ok [.ok {}], fun _ _ => .ok {}⟩ r
    let register (n : Node) : Turn := .register now { node := some n }
    let f := ((ofLimit 1).serve dial [register old]).2
    f.Connects dial chat old ∧
      (f.serve dial [chat, chat, register new]).2.Connects dial chat new ∧
      (f.serve dial [chat, chat, register new, chat]).2.asked =
        [⟨"10.0.0.1:7000", .chat r⟩, ⟨"10.0.0.1:7000", .chat r⟩, ⟨"10.0.0.2:7000", .chat r⟩] ∧
      ∃ early, early <+: [chat, register new] ∧
        (f.serve dial (chat :: early)).2.registry.target? "n1" ≠ f.registry.target? "n1" := by
  intro dial now old new r chat register f
  have hfirst : f.Connects dial chat old := ⟨⟨"m", rfl⟩, by decide +kernel, rfl⟩
  have hnodes : (f.serve dial [chat, chat, register new]).2.registry.list = [new] := by
    decide +kernel
  have hsecond : (f.serve dial [chat, chat, register new]).2.Connects dial chat new :=
    ⟨⟨"m", by rw [Registry.select, hnodes]⟩, by decide +kernel, rfl⟩
  obtain ⟨-, -, -, -, hmoved⟩ := serve_eq_serveAnew dial 1 [register old]
  exact ⟨hfirst, hsecond, by decide +kernel, hmoved chat _ chat old new hfirst hsecond rfl⟩

end Fleet

end InferenceFleet
