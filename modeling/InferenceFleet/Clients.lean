import InferenceFleet.Failure

/-!
# Clients of node agents

One client per node, made on first use and kept. The map leads from a node's id to a slot; a slot is
empty until a dial succeeds and then holds the client, which is known by the target it was dialled
at. Evicting a node drops its slot: a dial under way then fills a slot that nobody finds any more.
-/

namespace InferenceFleet

abbrev Slot := Nat

structure Clients where
  /-- The slot of each node. -/
  current : Keyed Slot
  /-- The targets of the filled slots. -/
  filled : List (Slot × String)
  /-- The next slot to hand out. -/
  fresh : Slot
  deriving DecidableEq

namespace Clients

def empty : Clients := { current := .empty, filled := [], fresh := 0 }

/-- The node's slot, a new one if it has none. -/
def slotFor (c : Clients) (id : String) : Slot × Clients :=
  match c.current.get? id with
  | some slot => (slot, c)
  | none => (c.fresh, { c with current := c.current.insert id c.fresh, fresh := c.fresh + 1 })

/-- The target at which the slot's client was dialled. -/
def client? (c : Clients) (slot : Slot) : Option String := c.filled.lookup slot

/-- A dial of `target` for the slot has ended; the first success stays. -/
def settle (c : Clients) (slot : Slot) (target : String) (dial : Except AgentFault Unit) :
    Clients :=
  match dial, c.client? slot with
  | .ok (), none => { c with filled := (slot, target) :: c.filled }
  | _, _ => c

/-- Drops the node's slot; says whether it had one. -/
def evict (c : Clients) (id : String) : Bool × Clients :=
  (c.current.contains id, { c with current := c.current.erase id })

/-- The client of a node, if its slot is filled. -/
def lookup? (c : Clients) (id : String) : Option String := c.current.get? id >>= c.client?

/-- How many nodes have a connected client. -/
def connected (c : Clients) : Nat := c.current.values.countP fun slot => (c.client? slot).isSome

/-! ### The slots after an operation -/

/-- Slots are handed out in order, each to one node. -/
structure Sound (c : Clients) : Prop where
  current_lt : ∀ id slot, c.current.get? id = some slot → slot < c.fresh
  filled_lt : ∀ slot target, c.client? slot = some target → slot < c.fresh
  apart : ∀ id id' slot, c.current.get? id = some slot → c.current.get? id' = some slot → id = id'

variable {c : Clients} {id : String} {slot : Slot} {target : String}

theorem lookup?_eq_some_iff : c.lookup? id = some target ↔
    ∃ slot, c.current.get? id = some slot ∧ c.client? slot = some target :=
  Option.bind_eq_some_iff

theorem Sound.empty : Clients.empty.Sound := ⟨nofun, nofun, nofun⟩

theorem current_evict (c : Clients) (id i : String) :
    (c.evict id).2.current.get? i = if i = id then none else c.current.get? i := Keyed.get?_erase ..

theorem Sound.evict (h : c.Sound) (id : String) : (c.evict id).2.Sound := by
  have hold : ∀ {i slot}, (c.evict id).2.current.get? i = some slot →
      c.current.get? i = some slot := by
    intro i slot hi
    rw [current_evict] at hi
    split at hi
    · cases hi
    · exact hi
  exact ⟨fun i slot hi => h.current_lt i slot (hold hi), h.filled_lt,
    fun i i' slot hi hi' => h.apart i i' slot (hold hi) (hold hi')⟩

/-- The node's slot is the one it had, or a new and empty one. -/
theorem slotFor_cases (c : Clients) (id : String) :
    (c.current.get? id = some (c.slotFor id).1 ∧ (c.slotFor id).2 = c) ∨
      c.current.get? id = none ∧ (c.slotFor id).1 = c.fresh ∧
        (c.slotFor id).2 =
          { c with current := c.current.insert id c.fresh, fresh := c.fresh + 1 } := by
  unfold slotFor
  split
  · rename_i slot hslot
    exact .inl ⟨hslot, rfl⟩
  · rename_i hslot
    exact .inr ⟨hslot, rfl, rfl⟩

theorem current_slotFor (c : Clients) (id i : String) : (c.slotFor id).2.current.get? i =
    if i = id then some (c.slotFor id).1 else c.current.get? i := by
  rcases c.slotFor_cases id with ⟨hslot, hsame⟩ | ⟨-, hslot, hnew⟩
  · rw [hsame]
    split
    · rename_i hi
      rw [hi, hslot]
    · rfl
  · rw [hnew, hslot]
    exact Keyed.get?_insert ..

theorem client?_slotFor (c : Clients) (id : String) (slot : Slot) :
    (c.slotFor id).2.client? slot = c.client? slot := by
  rcases c.slotFor_cases id with ⟨-, h⟩ | ⟨-, -, h⟩
  · rw [h]
  · rw [h]
    rfl

theorem Sound.slotFor (h : c.Sound) (id : String) : (c.slotFor id).2.Sound := by
  rcases c.slotFor_cases id with ⟨-, hsame⟩ | ⟨-, -, hnew⟩
  · rw [hsame]
    exact h
  · have hcases : ∀ {i slot}, (c.current.insert id c.fresh).get? i = some slot →
        i = id ∧ slot = c.fresh ∨ c.current.get? i = some slot := by
      intro i slot hi
      rw [Keyed.get?_insert] at hi
      split at hi
      · exact .inl ⟨‹_›, (Option.some.inj hi).symm⟩
      · exact .inr hi
    rw [hnew]
    refine ⟨fun i slot hi => ?_,
      fun slot target hs => Nat.lt_succ_of_lt (h.filled_lt slot target hs),
      fun i i' slot hi hi' => ?_⟩
    · rcases hcases hi with ⟨-, rfl⟩ | hold
      · exact Nat.lt_succ_self _
      · exact Nat.lt_succ_of_lt (h.current_lt i slot hold)
    · rcases hcases hi with ⟨hid, hslot⟩ | hold <;> rcases hcases hi' with ⟨hid', hslot'⟩ | hold'
      · rw [hid, hid']
      · exact absurd (hslot ▸ h.current_lt i' slot hold') (Nat.lt_irrefl _)
      · exact absurd (hslot' ▸ h.current_lt i slot hold) (Nat.lt_irrefl _)
      · exact h.apart i i' slot hold hold'

theorem current_settle (c : Clients) (slot : Slot) (target : String)
    (dial : Except AgentFault Unit) : (c.settle slot target dial).current = c.current := by
  unfold settle
  split <;> rfl

theorem fresh_settle (c : Clients) (slot : Slot) (target : String)
    (dial : Except AgentFault Unit) : (c.settle slot target dial).fresh = c.fresh := by
  unfold settle
  split <;> rfl

theorem settle_of_some (dial : Except AgentFault Unit) {client : String}
    (h : c.client? slot = some client) : c.settle slot target dial = c := by
  unfold settle
  rw [h]
  split
  · rename_i hnone
    cases hnone
  · rfl

theorem settle_error (c : Clients) (slot : Slot) (target : String) (fault : AgentFault) :
    c.settle slot target (.error fault) = c := rfl

theorem client?_settle_ok (h : c.client? slot = none) (target : String) (s : Slot) :
    (c.settle slot target (.ok ())).client? s = if s = slot then some target else c.client? s := by
  have hsettle :
      c.settle slot target (.ok ()) = { c with filled := (slot, target) :: c.filled } := by
    unfold settle
    rw [h]
  simp only [hsettle, client?, List.lookup_cons]
  split
  · rename_i hs
    rw [if_pos (beq_iff_eq.1 hs)]
  · rename_i hs
    rw [if_neg (beq_eq_false_iff_ne.1 hs)]

theorem Sound.settle (h : c.Sound) (hslot : slot < c.fresh) (target : String)
    (dial : Except AgentFault Unit) : (c.settle slot target dial).Sound := by
  cases hclient : c.client? slot with
  | some client =>
    rw [settle_of_some dial hclient]
    exact h
  | none =>
    cases dial with
    | error fault => exact h
    | ok _ =>
      refine ⟨fun i s hi => ?_, fun s t hs => ?_, fun i i' s hi hi' => ?_⟩
      · rw [current_settle] at hi
        rw [fresh_settle]
        exact h.current_lt i s hi
      · rw [client?_settle_ok hclient] at hs
        rw [fresh_settle]
        split at hs
        · rename_i heq
          rw [heq]
          exact hslot
        · exact h.filled_lt s t hs
      · rw [current_settle] at hi hi'
        exact h.apart i i' s hi hi'

/-! ### The clients of nodes after an operation -/

theorem lookup?_evict (c : Clients) (id i : String) :
    (c.evict id).2.lookup? i = if i = id then none else c.lookup? i := by
  rw [lookup?, current_evict]
  split <;> rfl

/-- A new slot is empty. -/
theorem Sound.lookup?_slotFor (h : c.Sound) (id i : String) :
    (c.slotFor id).2.lookup? i = c.lookup? i := by
  rcases c.slotFor_cases id with ⟨-, hsame⟩ | ⟨hnone, hslot, -⟩
  · rw [hsame]
  · have hempty : c.client? c.fresh = none := by
      cases hclient : c.client? c.fresh with
      | none => rfl
      | some client => exact absurd (h.filled_lt _ _ hclient) (Nat.lt_irrefl _)
    unfold lookup?
    rw [current_slotFor]
    split
    · rename_i hi
      rw [hi, hnone, hslot]
      exact (client?_slotFor ..).trans hempty
    · exact congrArg (c.current.get? i >>= ·) (funext (client?_slotFor c id))

/-- What a dispatch finds in the node's slot. -/
theorem Sound.client?_slotFor_self (h : c.Sound) (id : String) :
    (c.slotFor id).2.client? (c.slotFor id).1 = c.lookup? id := by
  rw [← h.lookup?_slotFor id id, lookup?, current_slotFor, if_pos rfl]
  rfl

theorem lookup?_settle_ok {i : String} (hclient : c.client? slot = none) (target : String)
    (hslot : c.current.get? i = some slot) :
    (c.settle slot target (.ok ())).lookup? i = some target := by
  rw [lookup?_eq_some_iff]
  refine ⟨slot, by rw [current_settle, hslot], ?_⟩
  rw [client?_settle_ok hclient, if_pos rfl]

theorem lookup?_settle_of_ne {i : String} (hslot : c.current.get? i ≠ some slot) (target : String)
    (dial : Except AgentFault Unit) : (c.settle slot target dial).lookup? i = c.lookup? i := by
  cases hclient : c.client? slot with
  | some client => rw [settle_of_some dial hclient]
  | none =>
    cases dial with
    | error fault => rfl
    | ok _ =>
      unfold lookup?
      rw [current_settle]
      cases hi : c.current.get? i with
      | none => rfl
      | some s =>
        have hne : s ≠ slot := fun h => hslot (h ▸ hi)
        exact (client?_settle_ok hclient target s).trans (if_neg hne)

/-- A client that is there stays. -/
theorem lookup?_settle_of_some {i client : String} (h : c.lookup? i = some client) (slot : Slot)
    (target : String) (dial : Except AgentFault Unit) :
    (c.settle slot target dial).lookup? i = some client := by
  by_cases hslot : c.current.get? i = some slot
  · obtain ⟨s, hs, hclient⟩ := lookup?_eq_some_iff.1 h
    obtain rfl : slot = s := Option.some.inj (hslot.symm.trans hs)
    rw [settle_of_some dial hclient]
    exact h
  · rw [lookup?_settle_of_ne hslot]
    exact h

/-- A client after a dial was there before, or it is the one dialled. -/
theorem lookup?_of_settle {i client : String} {dial : Except AgentFault Unit}
    (h : (c.settle slot target dial).lookup? i = some client) :
    c.lookup? i = some client ∨ c.current.get? i = some slot ∧ client = target := by
  by_cases hslot : c.current.get? i = some slot
  · cases hclient : c.client? slot with
    | some present =>
      rw [settle_of_some dial hclient] at h
      exact .inl h
    | none =>
      cases dial with
      | error fault => exact .inl h
      | ok _ =>
        rw [lookup?_settle_ok hclient target hslot] at h
        exact .inr ⟨hslot, (Option.some.inj h).symm⟩
  · rw [lookup?_settle_of_ne hslot] at h
    exact .inl h

end Clients

end InferenceFleet
