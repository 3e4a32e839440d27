import InferenceFleet.Dispatch
import Mathlib.Data.List.Nodup

/-!
# Calls for clients, side by side

Whoever needs the client of a node looks the node's slot up, puts a new slot into the map if there
is none, and waits at the slot until it is filled or it is its own turn to dial. Others may come in
between any two of these steps, and nodes may be evicted. A `Switchboard` is the clients with all
such calls, and with what happened so far: which call found which slot, and how dials ended. A call
that is left alone does what `Fleet.clientFor` does (`run_alone`).
-/

namespace InferenceFleet

namespace Switchboard

/-- How far a call has come. -/
inductive Stage where
  /-- The slot of the node is looked up. -/
  | probing
  /-- There was no slot; the map is to get one, unless it has one by now. -/
  | inserting
  | waiting (slot : Slot)
  | dialling (slot : Slot)
  | returned (slot : Slot) (result : Except AgentFault String)
  deriving DecidableEq

/-- The slot that the call has found. -/
def Stage.slot? : Stage → Option Slot
  | .probing | .inserting => none
  | .waiting slot | .dialling slot | .returned slot _ => some slot

structure Call where
  node : Node
  stage : Stage := .probing
  deriving DecidableEq

/-- What happens to the map. -/
inductive Lookup where
  /-- The call has found the slot of the node `id`, or made it. -/
  | found (call : Nat) (id : String) (slot : Slot)
  | evicted (id : String)
  deriving DecidableEq

/-- A dial that has ended. -/
structure Dial where
  call : Nat
  slot : Slot
  result : Except AgentFault String
  deriving DecidableEq

/-- The dial has filled the slot. -/
def Dial.fills (d : Dial) (slot : Slot) : Bool := d.slot == slot && d.result.isOk

@[simp] theorem Dial.fills_ok (i : Nat) (slot slot' : Slot) (client : String) :
    (⟨i, slot, .ok client⟩ : Dial).fills slot' = (slot == slot') := Bool.and_true _

@[simp] theorem Dial.fills_error (i : Nat) (slot slot' : Slot) (fault : AgentFault) :
    (⟨i, slot, .error fault⟩ : Dial).fills slot' = false := Bool.and_false _

inductive Action where
  | arrive (node : Node)
  | probe (call : Nat)
  | insert (call : Nat)
  /-- The call begins to dial. -/
  | begin (call : Nat)
  /-- The call takes the client that is in its slot. -/
  | take (call : Nat)
  /-- The dial of the call ends. -/
  | finish (call : Nat) (result : Except AgentFault Unit)
  | evict (id : String)
  deriving DecidableEq

/-- The call that takes the step. -/
def Action.call? : Action → Option Nat
  | .arrive _ | .evict _ => none
  | .probe i | .insert i | .begin i | .take i | .finish i _ => some i

end Switchboard

open Switchboard in
structure Switchboard where
  clients : Clients := .empty
  calls : List Call := []
  /-- The latest comes first. -/
  lookups : List Lookup := []
  dials : List Dial := []
  deriving DecidableEq

namespace Switchboard

/-- The call for the client of `n` has come to the stage. -/
def IsAt (s : Switchboard) (i : Nat) (n : Node) (stage : Stage) : Prop :=
  s.calls[i]? = some ⟨n, stage⟩

instance (s : Switchboard) (i : Nat) (n : Node) (stage : Stage) : Decidable (s.IsAt i n stage) :=
  inferInstanceAs (Decidable (_ = _))

def move (s : Switchboard) (i : Nat) (n : Node) (stage : Stage) : Switchboard :=
  { s with calls := s.calls.set i ⟨n, stage⟩ }

/-- The call gets the slot of its node. -/
def find (s : Switchboard) (i : Nat) (n : Node) : Switchboard :=
  let (slot, clients) := s.clients.slotFor n.id
  { s.move i n (.waiting slot) with clients, lookups := .found i n.id slot :: s.lookups }

/-- The dial of the call ends: a success fills the slot, and only the call learns of a failure. -/
def settle (s : Switchboard) (i : Nat) (n : Node) (slot : Slot) (result : Except AgentFault Unit) :
    Switchboard :=
  let client := result.map fun _ => n.agentTarget
  { s.move i n (.returned slot client) with
    clients := s.clients.settle slot n.agentTarget result
    dials := ⟨i, slot, client⟩ :: s.dials }

/-- Some call dials for the slot. -/
def isDialling (s : Switchboard) (slot : Slot) : Bool :=
  s.calls.any fun c => c.stage == .dialling slot

/-- The switchboard after a step; `none` when the step cannot be taken now. -/
def step (s : Switchboard) : Action → Option Switchboard
  | .arrive node => some { s with calls := s.calls ++ [{ node }] }
  | .probe i =>
    match s.calls[i]? with
    | some ⟨n, .probing⟩ =>
      some (if s.clients.current.contains n.id then s.find i n else s.move i n .inserting)
    | _ => none
  | .insert i =>
    match s.calls[i]? with
    | some ⟨n, .inserting⟩ => some (s.find i n)
    | _ => none
  | .begin i =>
    match s.calls[i]? with
    | some ⟨n, .waiting slot⟩ =>
      match s.clients.client? slot, s.isDialling slot with
      | none, false => some (s.move i n (.dialling slot))
      | _, _ => none
    | _ => none
  | .take i =>
    match s.calls[i]? with
    | some ⟨n, .waiting slot⟩ =>
      match s.clients.client? slot with
      | some client => some (s.move i n (.returned slot (.ok client)))
      | none => none
    | _ => none
  | .finish i result =>
    match s.calls[i]? with
    | some ⟨n, .dialling slot⟩ => some (s.settle i n slot result)
    | _ => none
  | .evict id =>
    some { s with clients := (s.clients.evict id).2, lookups := .evicted id :: s.lookups }

/-- The switchboard after some steps, those that cannot be taken being passed over. -/
def run (s : Switchboard) (actions : List Action) : Switchboard :=
  actions.foldl (fun s a => (s.step a).getD s) s

variable {s s' : Switchboard} {i j : Nat} {n m : Node} {stage stage' : Stage} {slot : Slot}

theorem run_append (s : Switchboard) (actions more : List Action) :
    s.run (actions ++ more) = (s.run actions).run more := List.foldl_append

/-- What every step keeps, every run keeps. -/
theorem run_induction {P : Switchboard → Prop}
    (hstep : ∀ s a s', P s → s.step a = some s' → P s') (h : P s) (actions : List Action) :
    P (s.run actions) := by
  induction actions generalizing s with
  | nil => exact h
  | cons a actions ih =>
    refine ih (s := (s.step a).getD s) ?_
    cases hs : s.step a with
    | none => exact h
    | some s' => exact hstep s a s' h hs

/-! ### Where the calls are -/

theorem IsAt.unique (h : s.IsAt i n stage) (h' : s.IsAt i m stage') : m = n ∧ stage' = stage := by
  cases h'.symm.trans h
  exact ⟨rfl, rfl⟩

theorem isAt_set {calls : List Call} {c d : Call} {k : Nat} (h : calls[i]? = some c) {c' : Call} :
    (calls.set i d)[k]? = some c' ↔ k = i ∧ c' = d ∨ k ≠ i ∧ calls[k]? = some c' := by
  obtain ⟨hi, -⟩ := List.getElem?_eq_some_iff.1 h
  rw [List.getElem?_set]
  by_cases hk : i = k
  · subst hk
    simp [hi, eq_comm]
  · simp [hk, Ne.symm hk]

theorem isAt_move {goal : Stage} (h : s.IsAt i n stage) : (s.move i n goal).IsAt j m stage' ↔
    j = i ∧ m = n ∧ stage' = goal ∨ j ≠ i ∧ s.IsAt j m stage' := by
  unfold IsAt move at *
  rw [isAt_set h]
  simp

theorem isDialling_iff : s.isDialling slot = true ↔ ∃ i n, s.IsAt i n (.dialling slot) := by
  unfold isDialling IsAt
  rw [List.any_eq_true]
  constructor
  · rintro ⟨⟨n, stage⟩, hmem, hstage⟩
    obtain ⟨i, hi⟩ := List.mem_iff_getElem?.1 hmem
    obtain rfl : stage = .dialling slot := by simpa using hstage
    exact ⟨i, n, hi⟩
  · rintro ⟨i, n, hi⟩
    exact ⟨_, List.mem_of_getElem? hi, by simp⟩

/-! ### What a step can do -/

/-- All that a step can make of the switchboard. -/
inductive Stepped (s : Switchboard) : Action → Switchboard → Prop where
  | arrive {n : Node} : Stepped s (.arrive n) { s with calls := s.calls ++ [{ node := n }] }
  | miss {i : Nat} {n : Node} : s.IsAt i n .probing → Stepped s (.probe i) (s.move i n .inserting)
  | find {a : Action} {i : Nat} {n : Node} {stage : Stage} : a = .probe i ∨ a = .insert i →
    s.IsAt i n stage → stage.slot? = none → Stepped s a (s.find i n)
  | begin {i : Nat} {n : Node} {slot : Slot} : s.IsAt i n (.waiting slot) →
    s.clients.client? slot = none → s.isDialling slot = false →
    Stepped s (.begin i) (s.move i n (.dialling slot))
  | take {i : Nat} {n : Node} {slot : Slot} {client : String} : s.IsAt i n (.waiting slot) →
    s.clients.client? slot = some client →
    Stepped s (.take i) (s.move i n (.returned slot (.ok client)))
  | finish {i : Nat} {n : Node} {slot : Slot} {result : Except AgentFault Unit} :
    s.IsAt i n (.dialling slot) → Stepped s (.finish i result) (s.settle i n slot result)
  | evict {id : String} : Stepped s (.evict id)
      { s with clients := (s.clients.evict id).2, lookups := .evicted id :: s.lookups }

theorem stepped_of_step {a : Action} (h : s.step a = some s') : s.Stepped a s' := by
  cases a <;> simp only [step] at h
  case arrive n =>
    cases h
    exact .arrive
  case probe i =>
    split at h
    · rename_i hi
      split at h <;> cases h
      · exact .find (.inl rfl) hi rfl
      · exact .miss hi
    · cases h
  case insert i =>
    split at h <;> cases h
    exact .find (.inr rfl) ‹_› rfl
  case begin i =>
    split at h
    · rename_i hi
      split at h <;> cases h
      exact .begin hi ‹_› ‹_›
    · cases h
  case take i =>
    split at h
    · rename_i hi
      split at h <;> cases h
      exact .take hi ‹_›
    · cases h
  case finish i result =>
    split at h <;> cases h
    exact .finish ‹_›
  case evict id =>
    cases h
    exact .evict

section steps
variable {client : String}

theorem step_begin (h : s.IsAt i n (.waiting slot)) (hempty : s.clients.client? slot = none)
    (hidle : s.isDialling slot = false) :
    s.step (.begin i) = some (s.move i n (.dialling slot)) := by
  simp only [step, show s.calls[i]? = _ from h, hempty, hidle]

theorem step_take (h : s.IsAt i n (.waiting slot))
    (hfilled : s.clients.client? slot = some client) :
    s.step (.take i) = some (s.move i n (.returned slot (.ok client))) := by
  simp only [step, show s.calls[i]? = _ from h, hfilled]

theorem step_finish (h : s.IsAt i n (.dialling slot)) (result : Except AgentFault Unit) :
    s.step (.finish i result) = some (s.settle i n slot result) := by
  simp only [step, show s.calls[i]? = _ from h]

theorem step_insert (h : s.IsAt i n .inserting) : s.step (.insert i) = some (s.find i n) := by
  simp only [step, show s.calls[i]? = _ from h]

theorem step_probe (h : s.IsAt i n .probing) : s.step (.probe i) =
    some (if s.clients.current.contains n.id then s.find i n else s.move i n .inserting) := by
  simp only [step, show s.calls[i]? = _ from h]

end steps

/-! ### A call that is left alone -/

/-- The steps of a call, one after the other; those that it need not take cannot be taken. -/
def alone (i : Nat) (dial : Except AgentFault Unit) : List Action :=
  [.probe i, .insert i, .begin i, .finish i dial, .take i]

theorem isAt_find (h : s.IsAt i n stage) :
    (s.find i n).IsAt i n (.waiting (s.clients.slotFor n.id).1) :=
  (isAt_move h).2 (.inl ⟨rfl, rfl, rfl⟩)

theorem isAt_settle (h : s.IsAt i n (.dialling slot)) (result : Except AgentFault Unit) :
    (s.settle i n slot result).IsAt i n (.returned slot (result.map fun _ => n.agentTarget)) :=
  (isAt_move h).2 (.inl ⟨rfl, rfl, rfl⟩)

theorem isDialling_move (h : s.IsAt i n stage) (hidle : s.isDialling slot = false)
    (hgoal : stage' ≠ .dialling slot) : (s.move i n stage').isDialling slot = false := by
  rw [Bool.eq_false_iff, ne_eq, isDialling_iff] at hidle ⊢
  rintro ⟨j, m, hj⟩
  rcases (isAt_move h).1 hj with ⟨-, -, hstage⟩ | ⟨-, hj⟩
  · exact hgoal hstage.symm
  · exact hidle ⟨j, m, hj⟩

/-- The first two steps of a call find the slot of its node. -/
theorem run_lookup (h : s.IsAt i n .probing)
    (hidle : s.isDialling (s.clients.slotFor n.id).1 = false) :
    (s.run [.probe i, .insert i]).IsAt i n (.waiting (s.clients.slotFor n.id).1) ∧
      (s.run [.probe i, .insert i]).clients = (s.clients.slotFor n.id).2 ∧
      (s.run [.probe i, .insert i]).isDialling (s.clients.slotFor n.id).1 = false := by
  have hfind : ∀ {s : Switchboard} {stage}, s.IsAt i n stage →
      s.isDialling (s.clients.slotFor n.id).1 = false →
      (s.find i n).isDialling (s.clients.slotFor n.id).1 = false :=
    fun h hidle => isDialling_move h hidle nofun
  have hrun : s.run [.probe i, .insert i] =
      ((((s.step (.probe i)).getD s).step (.insert i)).getD ((s.step (.probe i)).getD s)) := rfl
  rw [hrun, step_probe h, Option.getD_some]
  split
  · have hinsert : (s.find i n).step (.insert i) = none := by
      simp only [step, show (s.find i n).calls[i]? = _ from isAt_find h]
    rw [hinsert]
    exact ⟨isAt_find h, rfl, hfind h hidle⟩
  · have hmoved : (s.move i n .inserting).IsAt i n .inserting :=
      (isAt_move h).2 (.inl ⟨rfl, rfl, rfl⟩)
    rw [step_insert hmoved]
    exact ⟨isAt_find hmoved, rfl, hfind hmoved (isDialling_move h hidle nofun)⟩

/-- A call that is left alone ends as `Fleet.clientFor` does, with the same clients, unless somebody
else is dialling for the node. -/
theorem run_alone {f : Fleet} {agents : Agents} (hclients : f.clients = s.clients)
    (h : s.IsAt i n .probing) (hidle : s.isDialling (s.clients.slotFor n.id).1 = false) :
    (s.run (alone i (agents.dial n.agentTarget))).IsAt i n
        (.returned (s.clients.slotFor n.id).1 (f.clientFor agents n).1) ∧
      (s.run (alone i (agents.dial n.agentTarget))).clients = (f.clientFor agents n).2.clients := by
  obtain ⟨hfound, hafter, hidle⟩ := run_lookup h hidle
  have hrun : s.run (alone i (agents.dial n.agentTarget)) = (s.run [.probe i, .insert i]).run
      [.begin i, .finish i (agents.dial n.agentTarget), .take i] :=
    run_append s [.probe i, .insert i] _
  rw [hrun, Fleet.clientFor, hclients]
  generalize s.run [.probe i, .insert i] = t at hfound hafter hidle ⊢
  simp only [← hafter]
  generalize (s.clients.slotFor n.id).1 = slot at hfound hidle ⊢
  simp only [run, List.foldl_cons, List.foldl_nil, Fleet.connect]
  cases hclient : t.clients.client? slot with
  | some client =>
    have hbegin : t.step (.begin i) = none := by
      simp only [step, show t.calls[i]? = _ from hfound, hclient]
    have hfinish : t.step (.finish i (agents.dial n.agentTarget)) = none := by
      simp only [step, show t.calls[i]? = _ from hfound]
    simp only [hbegin, hfinish, step_take hfound hclient, Option.getD_none, Option.getD_some]
    exact ⟨(isAt_move hfound).2 (.inl ⟨rfl, rfl, rfl⟩), rfl⟩
  | none =>
    have hdialling : (t.move i n (.dialling slot)).IsAt i n (.dialling slot) :=
      (isAt_move hfound).2 (.inl ⟨rfl, rfl, rfl⟩)
    have hreturned := isAt_settle hdialling (agents.dial n.agentTarget)
    have htake : ((t.move i n (.dialling slot)).settle i n slot (agents.dial n.agentTarget)).step
        (.take i) = none := by
      simp only [step, show (Switchboard.settle ..).calls[i]? = _ from hreturned]
    simp only [step_begin hfound hclient hidle, step_finish hdialling, htake, Option.getD_none,
      Option.getD_some]
    exact ⟨hreturned, rfl⟩

end Switchboard

end InferenceFleet
