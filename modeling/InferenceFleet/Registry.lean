import InferenceFleet.Failure
import InferenceFleet.Time.Span

/-!
# The registry of nodes

Nodes by id, in the order of their ids. A node counts as stale when it was not heard from for longer
than a timeout; the comparison is strict and between spans (`isStale_iff`). Every operation takes
the present instant, the timeout is in nanoseconds.
-/

namespace InferenceFleet

structure Registry where
  nodes : Keyed Node
  deriving DecidableEq

namespace Registry

def empty : Registry := { nodes := .empty }

def get? (r : Registry) (id : String) : Option Node := r.nodes.get? id

def list (r : Registry) : List Node := r.nodes.values

def size (r : Registry) : Nat := r.nodes.size

/-- Puts the node under its id; one that was never seen is seen now. -/
def register (r : Registry) (now : Instant) (n : Node) : Registry :=
  { nodes := r.nodes.insert n.id { n with lastSeen := some (n.lastSeen.getD now) } }

/-- Changes the record of a registered node. -/
def modify (r : Registry) (id : String) (f : Node → Node) : Except RegistryFault Registry :=
  match r.get? id with
  | some n => .ok { nodes := r.nodes.insert id (f n) }
  | none => .error (.notFound id)

def setCapabilities (r : Registry) (now : Instant) (id : String) (c : Capabilities) :
    Except RegistryFault Registry :=
  r.modify id fun n => { n with capabilities := c, lastSeen := some now }

def heartbeat (r : Registry) (now : Instant) (id : String) : Except RegistryFault Registry :=
  r.modify id fun n => { n with lastSeen := some now }

def remove (r : Registry) (id : String) : Except RegistryFault (Node × Registry) :=
  match r.get? id with
  | some n => .ok (n, { nodes := r.nodes.erase id })
  | none => .error (.notFound id)

/-- Whether the node was not heard from for longer than the timeout; no node was if the timeout is
no span. `none` when the time since the node was heard from is no span. -/
def isStale? (now : Instant) (timeout : Nat) (n : Node) : Option Bool :=
  match Span.ofNanos? timeout with
  | none => some false
  | some limit =>
    match n.lastSeen with
    | none => some true
    | some seen => (now.span? seen).map fun age => limit.nanos < age.nanos

def isStale (now : Instant) (timeout : Nat) (n : Node) : Bool := isStale? now timeout n = some true

/-- The ids of the stale nodes. -/
def stale (r : Registry) (now : Instant) (timeout : Nat) : List String :=
  (r.list.filter (isStale now timeout)).map (·.id)

/-- Removes the node if it is stale now. -/
def removeIfStale (r : Registry) (now : Instant) (id : String) (timeout : Nat) :
    Option (Node × Registry) :=
  match r.get? id with
  | some n => if isStale now timeout n then some (n, { nodes := r.nodes.erase id }) else none
  | none => none

/-- The node that serves a model: any node is taken to serve every model, so it is the first. -/
def select (r : Registry) (model : String) : Except NoNode Node :=
  match r.list with
  | n :: _ => .ok n
  | [] => .error { model }

/-! ### Stale nodes -/

section
variable {now : Instant} {timeout : Nat} {n : Node}

/-- It can always be told whether a node is stale: the time since it was heard from is a span. -/
theorem isStale?_eq_some (now : Instant) (timeout : Nat) (n : Node) :
    ∃ stale, isStale? now timeout n = some stale ∧ (stale = true ↔ timeout ≤ Span.longest ∧
      ∀ seen ∈ n.lastSeen, (timeout : Int) < now.elapsedSince seen) := by
  unfold isStale?
  by_cases hlong : timeout ≤ Span.longest
  · rw [Span.ofNanos?_of_le (n := timeout) hlong]
    cases hseen : n.lastSeen with
    | none => exact ⟨true, rfl, by simp [hlong]⟩
    | some seen =>
      obtain ⟨age, hage, hnanos⟩ := now.span?_eq seen
      refine ⟨_, congrArg (Option.map _) hage, ?_⟩
      simp [hlong, hnanos]
  · rw [Span.ofNanos?_of_lt (n := timeout) (Nat.not_le.1 hlong)]
    exact ⟨false, rfl, by simp [hlong]⟩

/-- A node last seen in the leap second 12:34:60 is stale for this timeout just before the day ends,
and not yet when it has ended. -/
example :
    let seen : Instant := ⟨45299, 1000000000, by decide, by decide, by decide⟩
    let n : Node := { id := "a", hostname := "host", lastSeen := some seen }
    isStale (.ofNanos 86399900000000) 41100000000000 n = true ∧
      isStale (.ofNanos 86400000000000) 41100000000000 n = false := by decide +kernel

end

/-! ### The nodes after an operation -/

/-- Every node is kept under its own id. -/
def Named (r : Registry) : Prop := ∀ id n, r.get? id = some n → n.id = id

/-- Where the agent of a registered node is reached. -/
def target? (r : Registry) (id : String) : Option String := (r.get? id).map Node.agentTarget

variable {r r' : Registry} {id : String} {n : Node}

theorem target?_of_get? (h : r.get? id = some n) : r.target? id = some n.agentTarget := by
  rw [target?, h, Option.map_some]

theorem get?_register (r : Registry) (now : Instant) (n : Node) (i : String) :
    (r.register now n).get? i =
      if i = n.id then some { n with lastSeen := some (n.lastSeen.getD now) } else r.get? i :=
  Keyed.get?_insert ..

theorem target?_register (r : Registry) (now : Instant) (n : Node) (i : String) :
    (r.register now n).target? i = if i = n.id then some n.agentTarget else r.target? i := by
  rw [target?, get?_register]
  split <;> rfl

theorem Named.register (h : r.Named) (now : Instant) (n : Node) : (r.register now n).Named := by
  intro id m hm
  rw [get?_register] at hm
  split at hm
  · rename_i hid
    cases hm
    exact hid.symm
  · exact h id m hm

theorem get?_modify {f : Node → Node} (h : r.modify id f = .ok r') :
    ∃ n, r.get? id = some n ∧ ∀ i, r'.get? i = if i = id then some (f n) else r.get? i := by
  unfold modify at h
  split at h
  · rename_i n hn
    cases h
    exact ⟨n, hn, fun i => Keyed.get?_insert ..⟩
  · cases h

theorem target?_modify {f : Node → Node} (hf : ∀ n, (f n).agentTarget = n.agentTarget)
    (h : r.modify id f = .ok r') (i : String) : r'.target? i = r.target? i := by
  obtain ⟨n, hn, hget⟩ := get?_modify h
  rw [target?, hget, target?]
  split
  · rename_i hi
    rw [hi, hn, Option.map_some, Option.map_some, hf]
  · rfl

theorem Named.modify (hr : r.Named) {f : Node → Node} (hf : ∀ n, (f n).id = n.id)
    (h : r.modify id f = .ok r') : r'.Named := by
  obtain ⟨n, hn, hget⟩ := get?_modify h
  intro i m hm
  rw [hget] at hm
  split at hm
  · rename_i hi
    cases hm
    rw [hf, hr id n hn, hi]
  · exact hr i m hm

theorem get?_removeIfStale {now : Instant} {timeout : Nat}
    (h : r.removeIfStale now id timeout = some (n, r')) :
    r.get? id = some n ∧ ∀ i, r'.get? i = if i = id then none else r.get? i := by
  unfold removeIfStale at h
  split at h
  · rename_i m hm
    split at h <;> cases h
    exact ⟨hm, fun i => Keyed.get?_erase ..⟩
  · cases h

theorem target?_removeIfStale {now : Instant} {timeout : Nat}
    (h : r.removeIfStale now id timeout = some (n, r')) (i : String) :
    r'.target? i = if i = id then none else r.target? i := by
  rw [target?, (get?_removeIfStale h).2]
  split <;> rfl

theorem Named.removeIfStale (hr : r.Named) {now : Instant} {timeout : Nat}
    (h : r.removeIfStale now id timeout = some (n, r')) : r'.Named := by
  intro i m hm
  rw [(get?_removeIfStale h).2] at hm
  split at hm
  · cases hm
  · exact hr i m hm

theorem mem_list : n ∈ r.list ↔ ∃ id, r.get? id = some n := by
  simp only [list, Keyed.values, List.mem_map, get?, Keyed.get?_eq_some_iff]
  exact ⟨fun ⟨e, he, hn⟩ => ⟨e.1, hn ▸ he⟩, fun ⟨id, h⟩ => ⟨(id, n), h, rfl⟩⟩

/-- The node selected is registered, and no registered node has a smaller id. -/
theorem select_ok (hr : r.Named) {model : String} (h : r.select model = .ok n) :
    r.get? n.id = some n ∧ ∀ m ∈ r.list, n.id ≤ m.id := by
  obtain ⟨⟨es, hes⟩⟩ := r
  cases es with
  | nil => cases h
  | cons e es =>
    obtain rfl : e.2 = n := Except.ok.inj h
    have hget : (⟨⟨e :: es, hes⟩⟩ : Registry).get? e.1 = some e.2 :=
      Keyed.get?_eq_some_iff.2 List.mem_cons_self
    refine ⟨by rw [hr _ _ hget, hget], fun m hm => ?_⟩
    obtain ⟨id, hm⟩ := mem_list.1 hm
    rw [hr _ _ hget, hr _ _ hm]
    rcases List.mem_cons.1 (Keyed.get?_eq_some_iff.1 hm) with heq | hmem
    · obtain rfl := heq
      exact String.le_refl _
    · exact Std.le_of_lt ((List.pairwise_cons.1 hes).1 _ hmem)

/-- The node does not depend on the model. -/
theorem select_unique {model model' : String} {n' : Node} (h : r.select model = .ok n)
    (h' : r.select model' = .ok n') : n = n' := by
  unfold select at h h'
  cases hlist : r.list with
  | nil =>
    rw [hlist] at h
    cases h
  | cons m ms =>
    rw [hlist] at h h'
    exact (Except.ok.inj h).symm.trans (Except.ok.inj h')

theorem select_error {model : String} {fault : NoNode} (h : r.select model = .error fault) :
    r.list = [] ∧ fault.model = model := by
  unfold select at h
  split at h
  · cases h
  · cases h
    exact ⟨‹_›, rfl⟩

end Registry

end InferenceFleet
