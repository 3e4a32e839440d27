import InferenceFleet.Proofs.Fleet.ClientTargets
import InferenceFleet.Proofs.Fleet.Turns

/-!
# Clients in a fleet that takes turns

When nothing comes in between, a node's client is at the node's present target and only registered
nodes have a slot (`Fleet.Cached`). A turn changes the nodes and the clients in one of five ways
(`Fleet.Change`). Each keeps that, and a client stays until its node's target changes; so until then
the node is not dialled again.
-/

namespace InferenceFleet

namespace Fleet

/-- The two fleets have the same nodes and clients, and have dialled the same. -/
structure SameNodes (f g : Fleet) : Prop where
  registry : g.registry = f.registry
  clients : g.clients = f.clients
  dialled : g.dialled = f.dialled

theorem SameNodes.trans {f g h : Fleet} (hfg : f.SameNodes g) (hgh : g.SameNodes h) :
    f.SameNodes h :=
  ⟨hgh.registry.trans hfg.registry, hgh.clients.trans hfg.clients, hgh.dialled.trans hfg.dialled⟩

/-- What a turn can do to the nodes and to their clients. -/
inductive Change (dial : String → Except AgentFault Unit) (f : Fleet) : Fleet → Prop where
  | none : Change dial f f
  | register (now : Instant) (n : Node) : Change dial f
    { f with clients := f.evictMoved n, registry := f.registry.register now n }
  | modify (id : String) (change : Node → Node) {registry : Registry} :
    (∀ n, (change n).id = n.id) → (∀ n, (change n).agentTarget = n.agentTarget) →
    f.registry.modify id change = .ok registry → Change dial f { f with registry }
  | sweep (now : Instant) (timeout : Nat) (ids : List String) :
    Change dial f (f.sweepNodes now timeout ids).2
  | dispatch {agents : Agents} {model : String} {node : Node} : agents.dial = dial →
    f.registry.select model = .ok node → Change dial f (f.clientFor agents node).2

variable {f g : Fleet} {dial : String → Except AgentFault Unit} {agents : Agents} {node n : Node}
  {now : Instant} {id client : String}

/-! ### The changes that a turn makes -/

theorem sameNodes_run_loop (f : Fleet) (now : Instant) {moves : List Move}
    (hmoves : ∀ m ∈ moves, m ∈ loopMoves now) : f.SameNodes (f.run moves) := by
  obtain ⟨queue, processor, hrun, -⟩ := f.run_loop now hmoves
  have hself : f.run moves = { f with queue, processor } := hrun f.clients f.dialled
  rw [hself]
  exact ⟨rfl, rfl, rfl⟩

theorem sameNodes_submitJob (f : Fleet) (now : Instant) (r : Submission) :
    f.SameNodes (f.submitJob now r).2 := by
  simp only [submitJob]
  split
  · exact ⟨rfl, rfl, rfl⟩
  · split
    · exact ⟨rfl, rfl, rfl⟩
    · split
      · exact ⟨rfl, rfl, rfl⟩
      · exact ⟨rfl, rfl, rfl⟩

theorem change_withNode {α : Type} (f : Fleet) (agents : Agents) (model : String)
    (answer : String → Except AgentFault α) (request : Payload) :
    ∃ h, Change agents.dial f h ∧ h.SameNodes (f.withNode agents model
      fun f target => (answer target, f.ask target request)).2 := by
  unfold withNode
  split
  · exact ⟨f, .none, rfl, rfl, rfl⟩
  · rename_i node hselect
    refine ⟨_, .dispatch rfl hselect, ?_⟩
    cases f.clientFor agents node with
    | mk result g =>
      cases result with
      | error fault => exact ⟨rfl, rfl, rfl⟩
      | ok target =>
        dsimp only
        cases answer target with
        | error fault => exact ⟨rfl, rfl, rfl⟩
        | ok a => exact ⟨rfl, rfl, rfl⟩

theorem change_chat (f : Fleet) (agents : Agents) (r : ChatRequest) :
    ∃ h, Change agents.dial f h ∧ h.SameNodes (f.chat agents r).2 := by
  have hchat : (f.chat agents r).2 = (f.dispatchChat agents r).2 := by
    unfold chat
    split <;> rename_i heq <;> rw [heq]
  rw [hchat]
  unfold dispatchChat
  split
  · exact ⟨f, .none, rfl, rfl, rfl⟩
  · split
    · exact ⟨f, .none, rfl, rfl, rfl⟩
    · exact change_withNode f agents r.model _ _

theorem change_embeddings (f : Fleet) (agents : Agents) (r : EmbeddingsRequest) :
    ∃ h, Change agents.dial f h ∧ h.SameNodes (f.embeddings agents r).2 := by
  have hembeddings : (f.embeddings agents r).2 = (f.dispatchEmbeddings agents r).2 := by
    unfold embeddings
    split <;> rename_i heq <;> rw [heq]
  rw [hembeddings]
  unfold dispatchEmbeddings
  split
  · exact ⟨f, .none, rfl, rfl, rfl⟩
  · split
    · exact ⟨f, .none, rfl, rfl, rfl⟩
    · exact change_withNode f agents r.model _ _

/-- The work of the fleet has no part in the change. -/
theorem change_execute (f : Fleet) (q : Queue) (p : Processor) (agents : Agents) (now : Instant)
    (job : Job) : ∃ h, Change agents.dial f h ∧
      h.SameNodes (({ f with queue := q, processor := p } : Fleet).execute agents now job).2 := by
  unfold execute
  split
  · rename_i payload _
    simp only [dispatch]
    cases hselect : f.registry.select payload.model with
    | error fault => exact ⟨f, .none, rfl, rfl, rfl⟩
    | ok node =>
      simp only [place]
      split
      · rename_i queue _
        rw [call_clientFor_work f queue p agents payload node]
        refine ⟨_, .dispatch rfl hselect, ?_⟩
        cases f.clientFor agents node with
        | mk result g =>
          cases result with
          | error fault => exact ⟨rfl, rfl, rfl⟩
          | ok target => exact ⟨rfl, rfl, rfl⟩
      · exact ⟨f, .none, rfl, rfl, rfl⟩
  · exact ⟨f, .none, rfl, rfl, rfl⟩

theorem change_work (f : Fleet) (agents : Agents) (now : Instant) :
    ∃ h, Change agents.dial f h ∧ h.SameNodes (f.work agents now) := by
  obtain ⟨queue, processor, htake, htasks⟩ := f.takeUp_cases now
  have hself : f.takeUp now = { f with queue, processor } := htake f.clients f.dialled
  have hidle : ∀ {h g : Fleet}, h.SameNodes g → h.SameNodes (g.run [.idle]) := fun {h g} hg =>
    hg.trans (g.sameNodes_run_loop now (by simp [loopMoves]))
  rw [work, hself]
  rcases htasks with hsame | ⟨t, hphase, hnew⟩
  · have hnone : processor.tasks[f.processor.tasks.length]? = none := by
      rw [hsame, List.getElem?_eq_none (Nat.le_refl _)]
    rw [finish_of_none (f := { f with queue, processor }) agents now hnone]
    exact ⟨f, .none, hidle ⟨rfl, rfl, rfl⟩⟩
  · have ht : processor.tasks[f.processor.tasks.length]? = some t := by
      rw [hnew, List.getElem?_concat_length]
    obtain ⟨h, hchange, hnodes⟩ := change_execute f queue processor agents now t.job
    rw [finish_eq (f := { f with queue, processor }) agents now ht, hphase]
    exact ⟨h, hchange, hidle (hnodes.trans ⟨rfl, rfl, rfl⟩)⟩

theorem change_take (f : Fleet) (dial : String → Except AgentFault Unit) (turn : Turn) :
    ∃ h, Change dial f h ∧ h.SameNodes (f.take dial turn).2 := by
  cases turn with
  | submit now r => exact ⟨f, .none, f.sameNodes_submitJob now r⟩
  | register now r =>
    simp only [take, Prod.map, registerNode, id]
    split
    · exact ⟨f, .none, rfl, rfl, rfl⟩
    · split
      · exact ⟨f, .none, rfl, rfl, rfl⟩
      · exact ⟨_, .register now _, rfl, rfl, rfl⟩
  | heartbeat now r =>
    simp only [take, Prod.map, heartbeat, id]
    split
    · rename_i hmodify
      exact ⟨_, .modify r.nodeId (fun n => { n with lastSeen := some now }) (fun _ => rfl)
        (fun _ => rfl) hmodify, rfl, rfl, rfl⟩
    · exact ⟨f, .none, rfl, rfl, rfl⟩
  | update now r =>
    simp only [take, Prod.map, updateNode, id]
    split
    · exact ⟨f, .none, rfl, rfl, rfl⟩
    · rename_i capabilities _
      split
      · rename_i hmodify
        exact ⟨_, .modify r.nodeId (fun n => { n with capabilities, lastSeen := some now })
          (fun _ => rfl) (fun _ => rfl) hmodify, rfl, rfl, rfl⟩
      · exact ⟨f, .none, rfl, rfl, rfl⟩
  | sweep now timeout => exact ⟨_, .sweep now timeout _, rfl, rfl, rfl⟩
  | chat agents r => exact change_chat f { agents with dial } r
  | embeddings agents r => exact change_embeddings f { agents with dial } r
  | work agents now =>
    simp only [take]
    exact change_work f { agents with dial } now

theorem named_sweepNodes (h : f.registry.Named) (now : Instant) (timeout : Nat)
    (ids : List String) : (f.sweepNodes now timeout ids).2.registry.Named := by
  induction ids generalizing f with
  | nil => exact h
  | cons id ids ih =>
    refine ih (f := (f.sweepNode now timeout id).2) ?_
    unfold sweepNode
    split
    · rename_i hremoved
      exact h.removeIfStale hremoved
    · exact h

theorem Change.named (hchange : Change dial f g) (h : f.registry.Named) : g.registry.Named := by
  cases hchange with
  | none => exact h
  | register now n => exact h.register now n
  | modify id change hid htarget hmodify => exact h.modify hid hmodify
  | sweep now timeout ids => exact named_sweepNodes h now timeout ids
  | dispatch hdial hselect =>
    rw [clientFor, connect_registry]
    exact h

/-! ### The invariant -/

/-- Every client belongs to a registered node, and a dial of the node's target brings it. -/
structure Cached (dial : String → Except AgentFault Unit) (f : Fleet) : Prop where
  named : f.registry.Named
  sound : f.clients.Sound
  tuned : Traffic.Tuned f []
  dialled : ∀ id client, f.clients.lookup? id = some client → dial client = .ok ()

theorem lookup?_of_evictMoved (h : (f.evictMoved n).lookup? id = some client) :
    f.clients.lookup? id = some client := by
  rcases Traffic.ofRegister_cases f n with ⟨-, hclients⟩ | ⟨-, hclients⟩ <;> rw [hclients] at h
  · rw [Clients.lookup?_evict] at h
    split at h
    · cases h
    · exact h
  · exact h

/-- A client stays when its node is registered at the same target, or another node is. -/
theorem lookup?_evictMoved (hclient : f.clients.lookup? id = some client)
    (hsame : id = n.id → f.registry.target? id = some n.agentTarget) :
    (f.evictMoved n).lookup? id = some client := by
  unfold evictMoved
  split
  · rename_i previous hprevious
    split
    · rename_i hmoved
      have hne : id ≠ n.id := by
        rintro rfl
        have htarget := (Registry.target?_of_get? hprevious).symm.trans (hsame rfl)
        exact hmoved (Option.some.inj htarget)
      rw [Clients.lookup?_evict, if_neg hne, hclient]
    · exact hclient
  · exact hclient

namespace Cached

/-- A node that is not registered has no slot. -/
theorem current_eq_none (h : f.Cached dial) (hid : f.registry.target? id = none) :
    f.clients.current.get? id = none := by
  rcases h.tuned.removed id hid with hnone | ⟨o, ho, -⟩
  · exact hnone
  · cases ho

theorem target?_of_lookup? (h : f.Cached dial) (hclient : f.clients.lookup? id = some client) :
    f.registry.target? id = some client := by
  cases htarget : f.registry.target? id with
  | none =>
    rw [Clients.lookup?, h.current_eq_none htarget] at hclient
    cases hclient
  | some target => rw [h.tuned.cached id target client htarget hclient]

theorem congr (h : f.Cached dial) (hnamed : g.registry.Named)
    (htarget : ∀ id, g.registry.target? id = f.registry.target? id)
    (hclients : g.clients = f.clients) : g.Cached dial := by
  refine ⟨hnamed, hclients ▸ h.sound, ⟨fun _ ho => (by cases ho), fun id => ?_, fun id => ?_⟩,
    hclients ▸ h.dialled⟩
  · rw [htarget, hclients]
    exact h.tuned.cached id
  · rw [htarget, hclients]
    exact h.tuned.removed id

theorem of_sameNodes (h : f.Cached dial) (hfg : f.SameNodes g) : g.Cached dial :=
  h.congr (hfg.registry ▸ h.named) (fun id => by rw [hfg.registry]) hfg.clients

theorem of_empty (h : f.registry.Named) (hclients : f.clients = .empty) : f.Cached dial := by
  have hlookup : ∀ id client, f.clients.lookup? id ≠ some client := by
    rw [hclients]
    exact fun _ _ h => by cases h
  refine ⟨h, hclients ▸ .empty, ⟨fun _ ho => (by cases ho), fun id _ client _ h => ?_,
    fun id _ => .inl ?_⟩, fun id client h => absurd h (hlookup id client)⟩
  · exact absurd h (hlookup id client)
  · rw [hclients]
    rfl

theorem register (h : f.Cached dial) (now : Instant) (n : Node) : Cached dial
    { f with clients := f.evictMoved n, registry := f.registry.register now n } := by
  have hdialled : ∀ id client, (f.evictMoved n).lookup? id = some client → dial client = .ok () :=
    fun id client hc => h.dialled id client (lookup?_of_evictMoved hc)
  rcases Traffic.ofRegister_cases f n with ⟨-, hclients⟩ | ⟨ho, hclients⟩
  · rw [hclients] at hdialled ⊢
    have hstoring : Traffic.Tuned { f with clients := (f.clients.evict n.id).2 } [.storing n] :=
      (h.tuned.evict fun _ hp => (by cases hp)).cons
        (.inr ((f.clients.current_evict n.id n.id).trans (if_pos rfl)))
    exact ⟨h.named.register now n, h.sound.evict n.id, hstoring.store fun _ hp => (by cases hp),
      hdialled⟩
  · have hstoring := h.tuned.register (n := n) fun _ hp => by cases hp
    rw [ho] at hstoring
    rw [hclients] at hdialled ⊢
    exact ⟨h.named.register now n, h.sound, hstoring.store fun _ hp => (by cases hp), hdialled⟩

theorem sweepNode (h : f.Cached dial) (now : Instant) (timeout : Nat) (id : String) :
    (f.sweepNode now timeout id).2.Cached dial := by
  unfold Fleet.sweepNode
  split
  · rename_i removed registry hremoved
    have hdropping : Traffic.Tuned { f with registry } [.dropping timeout id []] :=
      h.tuned.remove hremoved fun _ hp => by cases hp
    refine ⟨h.named.removeIfStale hremoved, h.sound.evict id,
      hdropping.drop fun _ hp => (by cases hp), fun i client hc => ?_⟩
    rw [Clients.lookup?_evict] at hc
    split at hc
    · cases hc
    · exact h.dialled i client hc
  · exact h

theorem sweepNodes (h : f.Cached dial) (now : Instant) (timeout : Nat) (ids : List String) :
    (f.sweepNodes now timeout ids).2.Cached dial := by
  induction ids generalizing f with
  | nil => exact h
  | cons id ids ih => exact ih (h.sweepNode now timeout id)

theorem clientFor (h : f.Cached agents.dial) {model : String}
    (hselect : f.registry.select model = .ok node) :
    (f.clientFor agents node).2.Cached agents.dial := by
  have htarget := Registry.target?_of_get? (Registry.select_ok h.named hselect).1
  have hseeking : Traffic.Tuned f [.seeking node] := h.tuned.cons htarget
  have hsound := h.sound.slotFor node.id
  have hslot := hsound.current_lt node.id _
    ((f.clients.current_slotFor node.id node.id).trans (if_pos rfl))
  refine ⟨?_, ?_, (hseeking.seek h.sound fun _ hp => (by cases hp)).settle hsound,
    fun id client hc => ?_⟩
  · rw [Fleet.clientFor, connect_registry]
    exact h.named
  · rw [Fleet.clientFor, connect_clients]
    exact hsound.settle hslot ..
  · rw [Fleet.clientFor, connect_clients] at hc
    cases hdial : agents.dial node.agentTarget with
    | error fault =>
      rw [hdial, Clients.settle_error, h.sound.lookup?_slotFor] at hc
      exact h.dialled id client hc
    | ok _ =>
      rcases Clients.lookup?_of_settle hc with hold | ⟨-, rfl⟩
      · rw [h.sound.lookup?_slotFor] at hold
        exact h.dialled id client hold
      · exact hdial

theorem change (h : f.Cached dial) (hchange : Change dial f g) : g.Cached dial := by
  cases hchange with
  | none => exact h
  | register now n => exact h.register now n
  | modify id change hid htarget hmodify =>
    exact h.congr (h.named.modify hid hmodify) (Registry.target?_modify htarget hmodify) rfl
  | sweep now timeout ids => exact h.sweepNodes now timeout ids
  | dispatch hdial hselect =>
    subst hdial
    exact h.clientFor hselect

theorem take (h : f.Cached dial) (turn : Turn) : (f.take dial turn).2.Cached dial := by
  obtain ⟨g, hchange, hsame⟩ := f.change_take dial turn
  exact (h.change hchange).of_sameNodes hsame

theorem serve (h : f.Cached dial) (turns : List Turn) : (f.serve dial turns).2.Cached dial := by
  induction turns generalizing f with
  | nil => exact h
  | cons turn turns ih => exact ih (h.take turn)

end Cached

/-! ### How long a client stays -/

theorem sweepNode_cases (f : Fleet) (now : Instant) (timeout : Nat) (i id : String) :
    let g := (f.sweepNode now timeout i).2
    g.dialled = f.dialled ∧ (g.registry.target? id = none ∨
      g.registry.target? id = f.registry.target? id ∧
        g.clients.lookup? id = f.clients.lookup? id) := by
  unfold sweepNode
  split
  · rename_i removed registry hremoved
    refine ⟨rfl, ?_⟩
    dsimp only
    rw [Registry.target?_removeIfStale hremoved, Clients.lookup?_evict]
    split
    · exact .inl rfl
    · exact .inr ⟨rfl, rfl⟩
  · exact ⟨rfl, .inr ⟨rfl, rfl⟩⟩

theorem sweepNodes_cases (f : Fleet) (now : Instant) (timeout : Nat) (ids : List String)
    (id : String) :
    let g := (f.sweepNodes now timeout ids).2
    g.dialled = f.dialled ∧ (g.registry.target? id = none ∨
      g.registry.target? id = f.registry.target? id ∧
        g.clients.lookup? id = f.clients.lookup? id) := by
  induction ids generalizing f with
  | nil => exact ⟨rfl, .inr ⟨rfl, rfl⟩⟩
  | cons i ids ih =>
    obtain ⟨hdialled, hfirst⟩ := f.sweepNode_cases now timeout i id
    obtain ⟨hdialled', hrest⟩ := ih (f.sweepNode now timeout i).2
    refine ⟨hdialled'.trans hdialled, ?_⟩
    rcases hrest with hnone | ⟨htarget, hlookup⟩
    · exact .inl hnone
    · rcases hfirst with hnone | ⟨htarget', hlookup'⟩
      · exact .inl (htarget.trans hnone)
      · exact .inr ⟨htarget.trans htarget', hlookup.trans hlookup'⟩

/-- A node that has a client is not dialled; another one has its client if the dial succeeds. -/
theorem clientFor_cases (hsound : f.clients.Sound) (agents : Agents) (n : Node) :
    let g := (f.clientFor agents n).2
    g.dialled = f.dialled ∨ f.clients.lookup? n.id = none ∧
      g.dialled = f.dialled ++ [n.agentTarget] ∧
      (agents.dial n.agentTarget = .ok () → g.clients.lookup? n.id = some n.agentTarget) := by
  have hself := hsound.client?_slotFor_self n.id
  have hslot := (f.clients.current_slotFor n.id n.id).trans (if_pos rfl)
  simp only [clientFor, connect]
  split
  · exact .inl rfl
  · rename_i hnone
    refine .inr ⟨hself.symm.trans hnone, rfl, fun hdial => ?_⟩
    rw [hdial]
    exact Clients.lookup?_settle_ok hnone _ hslot

theorem Cached.lookup?_change (h : f.Cached dial) (hchange : Change dial f g)
    (hclient : f.clients.lookup? id = some client) (htarget : g.registry.target? id = some client) :
    g.clients.lookup? id = some client := by
  cases hchange with
  | none => exact hclient
  | register now n =>
    refine lookup?_evictMoved hclient fun hid => ?_
    dsimp only at htarget
    rw [Registry.target?_register, if_pos hid] at htarget
    rw [h.target?_of_lookup? hclient, htarget]
  | modify id change hid htarget' hmodify => exact hclient
  | sweep now timeout ids =>
    rcases (f.sweepNodes_cases now timeout ids id).2 with hnone | ⟨-, hlookup⟩
    · rw [hnone] at htarget
      cases htarget
    · rw [hlookup, hclient]
  | dispatch hdial hselect =>
    rw [Fleet.clientFor, connect_clients]
    exact Clients.lookup?_settle_of_some ((h.sound.lookup?_slotFor ..).trans hclient) ..

theorem Cached.dialled_change (h : f.Cached dial) (hchange : Change dial f g) :
    g.dialled = f.dialled ∨ ∃ model node, f.registry.select model = .ok node ∧
      f.clients.lookup? node.id = none ∧ g.dialled = f.dialled ++ [node.agentTarget] ∧
      (dial node.agentTarget = .ok () → g.clients.lookup? node.id = some node.agentTarget) := by
  cases hchange with
  | none => exact .inl rfl
  | register now n => exact .inl rfl
  | modify id change hid htarget hmodify => exact .inl rfl
  | sweep now timeout ids => exact .inl (f.sweepNodes_cases now timeout ids "").1
  | dispatch hdial hselect =>
    subst hdial
    rcases clientFor_cases h.sound _ _ with hsame | hdialled
    · exact .inl hsame
    · exact .inr ⟨_, _, hselect, hdialled⟩

/-- A turn dials no node, or the one selected, and that only if it has no client. -/
theorem Cached.dialled_take (h : f.Cached dial) (turn : Turn) :
    (f.take dial turn).2.dialled = f.dialled ∨ ∃ model node, f.registry.select model = .ok node ∧
      f.clients.lookup? node.id = none ∧
      (f.take dial turn).2.dialled = f.dialled ++ [node.agentTarget] ∧
      (dial node.agentTarget = .ok () →
        (f.take dial turn).2.clients.lookup? node.id = some node.agentTarget) := by
  obtain ⟨g, hchange, hsame⟩ := f.change_take dial turn
  rw [hsame.dialled, hsame.clients]
  exact h.dialled_change hchange

theorem Cached.lookup?_serve (h : f.Cached dial) (hclient : f.clients.lookup? id = some client)
    {turns : List Turn} (htarget : ∀ early, early <+: turns →
      (f.serve dial early).2.registry.target? id = some client) :
    (f.serve dial turns).2.clients.lookup? id = some client := by
  induction turns generalizing f with
  | nil => exact hclient
  | cons turn turns ih =>
    obtain ⟨g, hchange, hsame⟩ := f.change_take dial turn
    have hnext : (f.take dial turn).2.registry.target? id = some client :=
      htarget [turn] (by simp)
    have hkept : (f.take dial turn).2.clients.lookup? id = some client := by
      rw [hsame.registry] at hnext
      rw [hsame.clients]
      exact h.lookup?_change hchange hclient hnext
    exact ih (h.take turn) hkept fun early hearly =>
      htarget (turn :: early) ((List.prefix_cons_inj turn).2 hearly)

/-- The turn dials the node and gets a client. -/
structure Connects (dial : String → Except AgentFault Unit) (f : Fleet) (turn : Turn)
    (node : Node) : Prop where
  selected : ∃ model, f.registry.select model = .ok node
  dialled : (f.take dial turn).2.dialled = f.dialled ++ [node.agentTarget]
  result : dial node.agentTarget = .ok ()

/-- The node had no client, and has one after the turn. -/
theorem Cached.lookup?_of_connects (h : f.Cached dial) {turn : Turn}
    (hconnects : f.Connects dial turn node) : f.clients.lookup? node.id = none ∧
      (f.take dial turn).2.clients.lookup? node.id = some node.agentTarget := by
  obtain ⟨⟨model, hselect⟩, hdialled, hresult⟩ := hconnects
  rcases h.dialled_take turn with hsame | ⟨model', node', hselect', hnone, -, hclient⟩
  · rw [hsame] at hdialled
    have hlength := congrArg List.length hdialled
    rw [List.length_append] at hlength
    simp at hlength
  · obtain rfl := Registry.select_unique hselect hselect'
    exact ⟨hnone, hclient hresult⟩

/-- A node that is dialled with success twice has moved in between, or it was removed. -/
theorem Cached.moved_of_connects (h : f.Cached dial) {first second : Turn} {between : List Turn}
    {node' : Node} (hfirst : f.Connects dial first node)
    (hsecond : (f.serve dial (first :: between)).2.Connects dial second node')
    (hid : node'.id = node.id) : ∃ early, early <+: between ∧
      (f.serve dial (first :: early)).2.registry.target? node.id ≠ f.registry.target? node.id := by
  by_contra hmoved
  have hstays : ∀ early, early <+: between → (f.serve dial (first :: early)).2.registry.target?
      node.id = f.registry.target? node.id := fun early hearly =>
    by_contra fun hne => hmoved ⟨early, hearly, hne⟩
  obtain ⟨⟨model, hselect⟩, -⟩ := id hfirst
  have htarget := Registry.target?_of_get? (Registry.select_ok h.named hselect).1
  have hclient := (h.lookup?_of_connects hfirst).2
  have hkept := (h.take first).lookup?_serve hclient fun early hearly =>
    (hstays early hearly).trans htarget
  have hnone := ((h.serve (first :: between)).lookup?_of_connects hsecond).1
  rw [hid] at hnone
  exact absurd (hkept.symm.trans hnone) (by simp)

end Fleet

end InferenceFleet
