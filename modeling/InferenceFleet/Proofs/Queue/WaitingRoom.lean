import InferenceFleet.Proofs.Queue.Delivery
import Mathlib.Data.List.Basic

/-!
# Consumers that wait at a queue

A consumer registers before it looks for a job, so that it hears of one that comes between the look
and the wait. A `WaitingRoom` is a queue with everybody at it. A producer puts a job into the queue
and then notifies once: the notification goes to the consumer that has been registered longest, or
it is kept, one at the most, for the next that registers. A consumer that gives up its registration
with a notification it has not acted on passes that on.

Each step is what is done under one lock, and the steps of all come in any order. What a notified
consumer does up to its next registration is one step: nobody else sees anything of it, and it does
not wait in between. It waits at two places: in front of the lock of the queue, before it looks
(`Stage.checking`), and for a notification (`Stage.parked`). At both it can be broken off when its
time has run out. A consumer that is left alone gets what `Queue.dequeue` gives (`run_alone`).
-/

namespace InferenceFleet

namespace WaitingRoom

/-- What a consumer's registration has come to. -/
inductive Ticket where
  /-- There was a kept notification: the consumer need not wait. -/
  | granted
  | waiting
  | notified
  deriving DecidableEq

/-- How far a consumer has come. -/
inductive Stage where
  | arrived
  /-- It is registered and about to look for a job; `woken` if a notification has brought it. -/
  | checking (t : Ticket) (woken : Bool)
  /-- It has found no job and waits. -/
  | parked (t : Ticket)
  /-- It has its job and is still registered. -/
  | leaving (t : Ticket) (job : Job)
  | served (job : Job)
  /-- It was broken off; `unheeded` if a notification had brought it to look for a job, and it has
  not come to look. -/
  | gone (unheeded : Bool)
  deriving DecidableEq

namespace Stage

def ticket? : Stage → Option Ticket
  | .checking t _ | .parked t | .leaving t _ => some t
  | .arrived | .served _ | .gone _ => none

/-- The stage of a registered consumer when it is notified. -/
def notify : Stage → Stage
  | .checking _ woken => .checking .notified woken
  | .parked _ => .parked .notified
  | .leaving _ job => .leaving .notified job
  | stage => stage

def isNotified (stage : Stage) : Bool := stage.ticket? == some .notified

def isWoken : Stage → Bool
  | .checking _ woken => woken
  | _ => false

def isUnheeded : Stage → Bool
  | .gone unheeded => unheeded
  | _ => false

end Stage

inductive Action where
  /-- A producer puts its job into the queue. -/
  | push (now : Instant) (job : Job)
  /-- A producer that has done so notifies. -/
  | announce (index : Nat)
  /-- A consumer that does not wait, or a change of status. -/
  | call (c : Queue.Call)
  | arrive
  | register (consumer : Nat)
  | check (consumer : Nat)
  /-- The consumer goes away with its job. -/
  | leave (consumer : Nat)
  /-- The consumer's wait is over, and it registers anew. -/
  | resume (consumer : Nat)
  /-- The consumer is broken off: before it has begun, in front of the lock, or at its wait. -/
  | cancel (consumer : Nat)

end WaitingRoom

open WaitingRoom in
structure WaitingRoom where
  queue : Queue := .empty
  /-- The ids of the jobs whose producers have yet to notify. -/
  announcing : List String := []
  /-- Whether a notification is kept. -/
  kept : Bool := false
  /-- The consumers that are registered and not notified, longest first. -/
  waiters : List Nat := []
  consumers : List Stage := []

namespace WaitingRoom

def IsAt (r : WaitingRoom) (i : Nat) (stage : Stage) : Prop := r.consumers[i]? = some stage

instance (r : WaitingRoom) (i : Nat) (stage : Stage) : Decidable (r.IsAt i stage) :=
  inferInstanceAs (Decidable (_ = _))

def move (r : WaitingRoom) (i : Nat) (stage : Stage) : WaitingRoom :=
  { r with consumers := r.consumers.set i stage }

def notifyOne (r : WaitingRoom) : WaitingRoom :=
  match r.waiters with
  | [] => { r with kept := true }
  | i :: is => { r with waiters := is, consumers := r.consumers.modify i Stage.notify }

/-- The consumer registers. -/
def enter (r : WaitingRoom) (i : Nat) (woken : Bool) : WaitingRoom :=
  if r.kept then { r.move i (.checking .granted woken) with kept := false }
  else { r.move i (.checking .waiting woken) with waiters := r.waiters ++ [i] }

/-- The consumer gives its ticket back and goes on to a stage without one. -/
def giveBack (r : WaitingRoom) (i : Nat) (t : Ticket) (goal : Stage) : WaitingRoom :=
  match t with
  | .granted => r.move i goal
  | .waiting => { r.move i goal with waiters := r.waiters.erase i }
  | .notified => (r.move i goal).notifyOne

/-- The waiting room after a step; `none` when the step cannot be taken now. -/
def step (r : WaitingRoom) : Action → Option WaitingRoom
  | .push now job =>
    match r.queue.enqueue now job with
    | (.ok (), queue) => some { r with queue, announcing := r.announcing ++ [job.id] }
    | (.error _, queue) => some { r with queue }
  | .announce index =>
    if index < r.announcing.length then
      some { r with announcing := r.announcing.eraseIdx index }.notifyOne
    else none
  | .call c =>
    match c with
    | .enqueue _ _ => none
    | c => some { r with queue := (r.queue.call c).2 }
  | .arrive => some { r with consumers := r.consumers ++ [.arrived] }
  | .register i =>
    match r.consumers[i]? with
    | some .arrived => some (r.enter i false)
    | _ => none
  | .check i =>
    match r.consumers[i]? with
    | some (.checking t _) =>
      match r.queue.dequeue with
      | (some job, queue) => some { r.move i (.leaving t job) with queue }
      | (none, queue) => some { r.move i (.parked t) with queue }
    | _ => none
  | .leave i =>
    match r.consumers[i]? with
    | some (.leaving t job) => some (r.giveBack i t (.served job))
    | _ => none
  | .resume i =>
    match r.consumers[i]? with
    | some (.parked .granted) => some (r.enter i false)
    | some (.parked .notified) => some (r.enter i true)
    | _ => none
  | .cancel i =>
    match r.consumers[i]? with
    | some .arrived => some (r.move i (.gone false))
    | some (.checking t woken) => some (r.giveBack i t (.gone woken))
    | some (.parked t) => some (r.giveBack i t (.gone false))
    | _ => none

/-- The waiting room after some steps, those that cannot be taken being passed over. -/
def run (r : WaitingRoom) (actions : List Action) : WaitingRoom :=
  actions.foldl (fun r a => (r.step a).getD r) r

def Reachable (r : WaitingRoom) : Prop := ∃ actions, ({} : WaitingRoom).run actions = r

variable {r r' : WaitingRoom} {i j : Nat} {stage stage' goal : Stage}
  {t : Ticket}

/-- What every step keeps, every run keeps. -/
theorem run_induction {P : WaitingRoom → Prop}
    (hstep : ∀ r a r', P r → r.step a = some r' → P r') (h : P r) (actions : List Action) :
    P (r.run actions) := by
  induction actions generalizing r with
  | nil => exact h
  | cons a actions ih =>
    refine ih (r := (r.step a).getD r) ?_
    cases hr : r.step a with
    | none => exact h
    | some r' => exact hstep r a r' h hr

/-! ### Where the consumers are -/

theorem IsAt.unique (h : r.IsAt i stage) (h' : r.IsAt i goal) : goal = stage :=
  Option.some.inj (h'.symm.trans h)

theorem isAt_move (h : r.IsAt i stage) :
    (r.move i goal).IsAt j stage' ↔ j = i ∧ stage' = goal ∨ j ≠ i ∧ r.IsAt j stage' := by
  obtain ⟨hi, -⟩ := List.getElem?_eq_some_iff.1 h
  unfold IsAt move
  rw [List.getElem?_set]
  by_cases hj : i = j
  · subst hj
    simp [hi, eq_comm]
  · simp [hj, Ne.symm hj]

theorem isAt_arrive :
    ({ r with consumers := r.consumers ++ [.arrived] } : WaitingRoom).IsAt j stage ↔
      r.IsAt j stage ∨ j = r.consumers.length ∧ stage = .arrived := by
  unfold IsAt
  rw [List.getElem?_append]
  by_cases hj : j < r.consumers.length
  · simp [hj, Nat.ne_of_lt hj]
  · rw [if_neg hj, List.getElem?_eq_none (Nat.le_of_not_lt hj), List.getElem?_singleton]
    by_cases heq : j = r.consumers.length
    · simp [heq, eq_comm]
    · have hne : ¬ j - r.consumers.length = 0 := by omega
      simp [heq, hne]

/-- The first in the line is the one that is notified. -/
theorem notifyOne_cons {is : List Nat} (hwaiters : r.waiters = i :: is) (h : r.IsAt i stage) :
    r.notifyOne = { r.move i stage.notify with waiters := is } := by
  have hmodify : r.consumers.modify i Stage.notify = r.consumers.set i stage.notify := by
    rw [List.modify_eq_set_getElem?, show r.consumers[i]? = some stage from h]
    rfl
  rw [notifyOne, hwaiters]
  dsimp only
  rw [hmodify]
  rfl

theorem notifyOne_nil (hwaiters : r.waiters = []) : r.notifyOne = { r with kept := true } := by
  rw [notifyOne, hwaiters]

/-! ### What a step can do -/

/-- All that a step can make of the waiting room. -/
inductive Stepped (r : WaitingRoom) : Action → WaitingRoom → Prop where
  | pushed {now : Instant} {job : Job} {queue : Queue} :
    r.queue.enqueue now job = (.ok (), queue) →
    Stepped r (.push now job) { r with queue, announcing := r.announcing ++ [job.id] }
  | refused {now : Instant} {job : Job} {fault : QueueFault} {queue : Queue} :
    r.queue.enqueue now job = (.error fault, queue) → Stepped r (.push now job) { r with queue }
  | announced {index : Nat} : index < r.announcing.length →
    Stepped r (.announce index)
      { r with announcing := r.announcing.eraseIdx index }.notifyOne
  | called {c : Queue.Call} : (∀ now job, c ≠ .enqueue now job) →
    Stepped r (.call c) { r with queue := (r.queue.call c).2 }
  | arrived : Stepped r .arrive { r with consumers := r.consumers ++ [.arrived] }
  | registered {i : Nat} : r.IsAt i .arrived → Stepped r (.register i) (r.enter i false)
  | resumed {i : Nat} {t : Ticket} : r.IsAt i (.parked t) → t ≠ .waiting →
    Stepped r (.resume i) (r.enter i (t == .notified))
  | found {i : Nat} {t : Ticket} {woken : Bool} {job : Job} {queue : Queue} :
    r.IsAt i (.checking t woken) → r.queue.dequeue = (some job, queue) →
    Stepped r (.check i) { r.move i (.leaving t job) with queue }
  | parked {i : Nat} {t : Ticket} {woken : Bool} {queue : Queue} :
    r.IsAt i (.checking t woken) → r.queue.dequeue = (none, queue) →
    Stepped r (.check i) { r.move i (.parked t) with queue }
  | left {i : Nat} {t : Ticket} {job : Job} : r.IsAt i (.leaving t job) →
    Stepped r (.leave i) (r.giveBack i t (.served job))
  | stopped {i : Nat} : r.IsAt i .arrived → Stepped r (.cancel i) (r.move i (.gone false))
  | stoppedAtLock {i : Nat} {t : Ticket} {woken : Bool} : r.IsAt i (.checking t woken) →
    Stepped r (.cancel i) (r.giveBack i t (.gone woken))
  | stoppedAtWait {i : Nat} {t : Ticket} : r.IsAt i (.parked t) →
    Stepped r (.cancel i) (r.giveBack i t (.gone false))

theorem stepped_of_step {a : Action} (h : r.step a = some r') : r.Stepped a r' := by
  cases a <;> simp only [step] at h
  case push now job =>
    split at h <;> cases h
    · exact .pushed ‹_›
    · exact .refused ‹_›
  case announce index =>
    split at h <;> cases h
    exact .announced ‹_›
  case call c =>
    split at h
    · cases h
    · rename_i hc
      cases h
      exact .called hc
  case arrive =>
    cases h
    exact .arrived
  case register i =>
    split at h <;> cases h
    exact .registered ‹_›
  case check i =>
    split at h
    · rename_i hi
      split at h <;> cases h
      · exact .found hi ‹_›
      · exact .parked hi ‹_›
    · cases h
  case leave i =>
    split at h <;> cases h
    exact .left ‹_›
  case resume i =>
    split at h <;> cases h
    · exact .resumed (t := .granted) ‹_› nofun
    · exact .resumed (t := .notified) ‹_› nofun
  case cancel i =>
    split at h <;> cases h
    · exact .stopped ‹_›
    · exact .stoppedAtLock ‹_›
    · exact .stoppedAtWait ‹_›

/-! ### A consumer that is left alone -/

theorem isAt_enter (h : r.IsAt i stage) (woken : Bool) :
    ∃ t, (r.enter i woken).IsAt i (.checking t woken) := by
  unfold enter
  split
  · exact ⟨_, (isAt_move h).2 (.inl ⟨rfl, rfl⟩)⟩
  · exact ⟨_, (isAt_move h).2 (.inl ⟨rfl, rfl⟩)⟩

theorem queue_enter (r : WaitingRoom) (i : Nat) (woken : Bool) :
    (r.enter i woken).queue = r.queue := by
  unfold enter
  split <;> rfl

/-- A consumer that is left alone has, after its first steps, the job that the queue gives, or it
waits for one. -/
theorem run_alone (h : r.IsAt i .arrived) :
    (r.run [.register i, .check i]).queue = r.queue.dequeue.2 ∧
      ∃ t, (r.run [.register i, .check i]).IsAt i
        (r.queue.dequeue.1.elim (.parked t) (.leaving t)) := by
  have hregister : r.step (.register i) = some (r.enter i false) := by
    rw [step, show r.consumers[i]? = _ from h]
  obtain ⟨t, ht⟩ := isAt_enter h false
  have hrun : r.run [.register i, .check i] =
      ((r.enter i false).step (.check i)).getD (r.enter i false) := by
    rw [run, List.foldl_cons, List.foldl_cons, List.foldl_nil, hregister, Option.getD_some]
  rw [hrun, step, show (r.enter i false).consumers[i]? = _ from ht, ← queue_enter r i false]
  dsimp only
  split <;> rename_i hdequeue <;> rw [hdequeue, Option.getD_some]
  · exact ⟨rfl, t, (isAt_move ht).2 (.inl ⟨rfl, rfl⟩)⟩
  · exact ⟨rfl, t, (isAt_move ht).2 (.inl ⟨rfl, rfl⟩)⟩

end WaitingRoom

end InferenceFleet
