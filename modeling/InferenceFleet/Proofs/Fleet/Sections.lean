import InferenceFleet.Control

/-!
# Operations in sections

A registration, a dispatch and a sweep each take the lock of the registry or of the clients several
times, and others may come in between: `Operation` is what is left of one after some of its
sections, and `Traffic` is a fleet with the operations in flight. The sections of an operation, with
nobody between them, are the operation of the control plane (`run_register`, `run_dispatch`,
`run_sweep`); the tasks of jobs take the three sections of a dispatch too.
-/

namespace InferenceFleet

inductive Operation where
  /-- A registration of a node that was registered at another target: its client is to go. -/
  | evicting (n : Node)
  /-- A registration that is to store its node. -/
  | storing (n : Node)
  /-- A dispatch that has its node and looks for the slot. -/
  | seeking (n : Node)
  /-- A dispatch that waits for the client in the slot. -/
  | dialling (n : Node) (slot : Slot)
  /-- A sweep that is to look at the nodes `ids` again. -/
  | sweeping (timeout : Nat) (ids : List String)
  /-- A sweep that has removed the node `id`: its client is to go. -/
  | dropping (timeout : Nat) (id : String) (ids : List String)
  deriving DecidableEq

namespace Operation

/-- A registration after its first section, which compares the node with the one registered. -/
def ofRegister (r : Registry) (n : Node) : Operation :=
  match r.get? n.id with
  | some previous => if previous.agentTarget ≠ n.agentTarget then .evicting n else .storing n
  | none => .storing n

/-- The next section, at the present instant; a dial that ends in it has the result `dial`. The
fleet after it, and what is left of the operation. -/
def next (f : Fleet) (now : Instant) (dial : Except AgentFault Unit) :
    Operation → Fleet × Option Operation
  | .evicting n => ({ f with clients := (f.clients.evict n.id).2 }, some (.storing n))
  | .storing n => ({ f with registry := f.registry.register now n }, none)
  | .seeking n =>
    let (slot, clients) := f.clients.slotFor n.id
    ({ f with clients }, some (.dialling n slot))
  | .dialling n slot => ((f.connect slot n.agentTarget dial).2, none)
  | .sweeping _ [] => (f, none)
  | .sweeping timeout (id :: ids) =>
    match f.registry.removeIfStale now id timeout with
    | some (_, registry) => ({ f with registry }, some (.dropping timeout id ids))
    | none => (f, some (.sweeping timeout ids))
  | .dropping timeout id ids =>
    ({ f with clients := (f.clients.evict id).2 }, some (.sweeping timeout ids))

/-- The node that the operation is at work on. -/
def node? : Operation → Option String
  | .evicting n | .storing n | .seeking n | .dialling n _ => some n.id
  | .sweeping _ _ => none
  | .dropping _ id _ => some id

/-- Whether the operation is about to change or has changed the registration of its node. -/
def isChange : Operation → Bool
  | .evicting _ | .storing _ | .dropping _ _ _ => true
  | _ => false

/-- Two operations on one node are dispatches. -/
def Compatible (o p : Operation) : Prop :=
  ∀ id, o.node? = some id → p.node? = some id → o.isChange = false ∧ p.isChange = false

theorem compatible_iff {o p : Operation} : o.Compatible p ↔
    o.node? = none ∨ o.node? ≠ p.node? ∨ o.isChange = false ∧ p.isChange = false := by
  constructor
  · intro h
    cases hnode : o.node? with
    | none => exact .inl rfl
    | some id =>
      by_cases hsame : p.node? = some id
      · exact .inr (.inr (h id hnode hsame))
      · exact .inr (.inl fun heq => hsame heq.symm)
  · rintro (hnone | hne | hquiet) id ho hp
    · rw [hnone] at ho
      cases ho
    · exact absurd (ho.trans hp.symm) hne
    · exact hquiet

instance (o p : Operation) : Decidable (o.Compatible p) := decidable_of_iff _ compatible_iff.symm

theorem Compatible.symm {o p : Operation} (h : o.Compatible p) : p.Compatible o :=
  fun id hp ho => (h id ho hp).symm

theorem Compatible.node?_ne {o p : Operation} (h : o.Compatible p) {id : String}
    (ho : o.node? = some id) (hchange : o.isChange = true) : p.node? ≠ some id := by
  intro hp
  rw [(h id ho hp).1] at hchange
  cases hchange

end Operation

structure Traffic where
  fleet : Fleet
  inFlight : List Operation := []

namespace Traffic

inductive Section where
  /-- A registration begins. -/
  | register (n : Node)
  /-- A dispatch begins with the selection of a node. -/
  | select (model : String)
  /-- A sweep begins with the search for stale nodes. -/
  | scan (now : Instant) (timeout : Nat)
  /-- An operation in flight takes its next section. -/
  | next (index : Nat) (now : Instant) (dial : Except AgentFault Unit)

def start (maxConcurrentJobs : Nat) : Traffic := { fleet := .ofLimit maxConcurrentJobs }

def step (s : Traffic) : Section → Traffic
  | .register n =>
    if n.id.isEmpty then s
    else { s with inFlight := s.inFlight ++ [.ofRegister s.fleet.registry n] }
  | .select model =>
    match s.fleet.registry.select model with
    | .ok n => { s with inFlight := s.inFlight ++ [.seeking n] }
    | .error _ => s
  | .scan now timeout =>
    { s with inFlight := s.inFlight ++ [.sweeping timeout (s.fleet.registry.stale now timeout)] }
  | .next index now dial =>
    match s.inFlight[index]? with
    | some o =>
      let (fleet, left) := o.next s.fleet now dial
      { fleet, inFlight := left.toList ++ s.inFlight.eraseIdx index }
    | none => s

def run (s : Traffic) (sections : List Section) : Traffic := sections.foldl step s

/-- No two operations in flight are on one node, unless both are dispatches. -/
def Apart (s : Traffic) : Prop := s.inFlight.Pairwise Operation.Compatible

instance (s : Traffic) : Decidable s.Apart := inferInstanceAs (Decidable (List.Pairwise _ _))

theorem run_append (s : Traffic) (sections more : List Section) :
    s.run (sections ++ more) = (s.run sections).run more := List.foldl_append

/-! ### Sections with nobody between them -/

theorem ofRegister_cases (f : Fleet) (n : Node) :
    (Operation.ofRegister f.registry n = .evicting n ∧ f.evictMoved n = (f.clients.evict n.id).2) ∨
      Operation.ofRegister f.registry n = .storing n ∧ f.evictMoved n = f.clients := by
  unfold Operation.ofRegister Fleet.evictMoved
  cases hget : f.registry.get? n.id with
  | none => exact .inr ⟨rfl, rfl⟩
  | some previous =>
    by_cases hmoved : previous.agentTarget ≠ n.agentTarget
    · exact .inl ⟨if_pos hmoved, if_pos hmoved⟩
    · exact .inr ⟨if_neg hmoved, if_neg hmoved⟩

section Alone
variable (f : Fleet) (now : Instant) (dial : Except AgentFault Unit)

theorem step_alone (o : Operation) :
    step { fleet := f, inFlight := [o] } (.next 0 now dial) =
      { fleet := (o.next f now dial).1, inFlight := (o.next f now dial).2.toList } :=
  congrArg (Traffic.mk _) (List.append_nil _)

theorem run_register {n : Node} (hid : n.id.isEmpty = false) :
    run { fleet := f } [.register n, .next 0 now dial, .next 0 now dial] =
      { fleet := (f.registerNode now { node := some n }).2 } := by
  have hregister : (f.registerNode now { node := some n }).2 =
      { f with clients := f.evictMoved n, registry := f.registry.register now n } := by
    simp only [Fleet.registerNode, hid]
    rfl
  have hfirst : step { fleet := f } (.register n) =
      { fleet := f, inFlight := [.ofRegister f.registry n] } := by
    simp only [step, hid]
    rfl
  rw [hregister, run, List.foldl_cons, hfirst]
  rcases ofRegister_cases f n with ⟨ho, hclients⟩ | ⟨ho, hclients⟩
  · rw [ho, hclients]
    rfl
  · rw [ho, hclients]
    rfl

theorem run_dispatch (agents : Agents) {model : String} {n : Node}
    (hselect : f.registry.select model = .ok n) :
    run { fleet := f }
        [.select model, .next 0 now dial, .next 0 now (agents.dial n.agentTarget)] =
      { fleet := (f.clientFor agents n).2 } := by
  have hfirst : step { fleet := f } (.select model) = { fleet := f, inFlight := [.seeking n] } := by
    simp only [step, hselect]
    rfl
  rw [run, List.foldl_cons, hfirst]
  rfl

theorem run_idle (count : Nat) :
    run { fleet := f } (List.replicate count (.next 0 now dial)) = { fleet := f } := by
  induction count with
  | zero => rfl
  | succ count ih => exact ih

/-- A node takes a sweep one section or two. -/
theorem run_sweepNodes (timeout : Nat) (ids : List String) {count : Nat}
    (hcount : 2 * ids.length + 1 ≤ count) :
    run { fleet := f, inFlight := [.sweeping timeout ids] }
        (List.replicate count (.next 0 now dial)) =
      { fleet := (f.sweepNodes now timeout ids).2 } := by
  induction ids generalizing f count with
  | nil =>
    obtain ⟨count, rfl⟩ : ∃ c, count = c + 1 := ⟨count - 1, by omega⟩
    exact run_idle f now dial count
  | cons id ids ih =>
    rw [List.length_cons] at hcount
    obtain ⟨count, rfl⟩ : ∃ c, count = c + 1 + 1 := ⟨count - 2, by omega⟩
    rw [List.replicate_succ, run, List.foldl_cons, step_alone]
    cases hremoved : f.registry.removeIfStale now id timeout with
    | none =>
      simp only [Operation.next, Fleet.sweepNodes, Fleet.sweepNode, hremoved]
      exact ih f (by omega)
    | some removed =>
      simp only [Operation.next, Fleet.sweepNodes, Fleet.sweepNode, hremoved]
      exact ih _ (by omega)

theorem run_sweep (timeout : Nat) {count : Nat}
    (hcount : 2 * (f.registry.stale now timeout).length + 1 ≤ count) :
    run { fleet := f } (.scan now timeout :: List.replicate count (.next 0 now dial)) =
      { fleet := (f.sweep now timeout).2 } :=
  run_sweepNodes f now dial timeout _ hcount

end Alone

end Traffic

end InferenceFleet
