import InferenceFleet.Proofs.Queue.History
import Mathlib.Data.List.Induction

/-!
# What the consumers of a queue get

An `Exchange` is a queue with the consumers that wait at it, and with a record of what it has
accepted and delivered. A consumer that waits looks whether there is a job, waits, and looks again;
between two looks anything may happen, and its time may run out. `Exchange.Sound` ties the FIFO and
the records of the queue to its history; every step keeps it.
-/

namespace InferenceFleet

namespace Queue

def accepts (q : Queue) : Call → List String
  | .enqueue now j =>
    match (q.enqueue now j).1 with
    | .ok _ => [j.id]
    | .error _ => []
  | _ => []

def delivers (q : Queue) : Call → List Job
  | .dequeue => q.dequeue.1.toList
  | _ => []

variable {q : Queue} {id : String}

/-- A change of status leaves the FIFO alone, and adds and drops no record. -/
theorem advance_keeps (q : Queue) (now : Instant) (id : String) (next : JobStatus) {f : Job → Job}
    (hf : ∀ j, (f j).id = j.id) :
    (q.advance now id next f).2.pending = q.pending ∧
      ∀ i, ((q.advance now id next f).2.get? i).isSome = (q.get? i).isSome := by
  rcases q.advance_cases now id next hf with ⟨j, hj, -, hpending, hget⟩ | ⟨fault, hfault⟩
  · refine ⟨hpending, fun i => ?_⟩
    rw [hget]
    split
    · rename_i hi
      rw [hi, hj]
      rfl
    · rfl
  · rw [hfault]
    exact ⟨rfl, fun _ => rfl⟩

/-- If the first of the waiting ids has a record, a consumer gets it. -/
theorem dequeue_of_pending {rest : List String} (hpending : q.pending = id :: rest)
    (hrecorded : (q.get? id).isSome) :
    ∃ j, j.id = id ∧ q.get? id = some j ∧ q.dequeue = (some j, { q with pending := rest }) := by
  obtain ⟨j, hj⟩ := Option.isSome_iff_exists.1 hrecorded
  refine ⟨j, id_of_get? hj, hj, ?_⟩
  simp only [dequeue, hpending, firstRecorded, hj]

theorem dequeue_of_empty (hpending : q.pending = []) : q.dequeue = (none, q) := by
  obtain ⟨pending, jobs⟩ := q
  obtain rfl : pending = [] := hpending
  rfl

end Queue

structure Exchange where
  queue : Queue := .empty
  /-- The consumers that wait, each with the nanoseconds that it is ready to wait if not for
  ever. -/
  waiting : List (Option Nat) := []
  /-- The ids accepted so far, in order. -/
  accepted : List String := []
  /-- The jobs that consumers got so far, in order. -/
  delivered : List Job := []

namespace Exchange

open Queue (Call)

inductive Event where
  /-- A producer, a consumer that does not wait, or a change of status. -/
  | call (c : Call)
  /-- A consumer looks for a job and waits if there is none. -/
  | wait (timeout : Option Nat)
  /-- A consumer that waits looks again. -/
  | look (index : Nat)
  /-- The time of a consumer that waits is over. -/
  | expire (index : Nat)

def call (s : Exchange) (c : Call) : Exchange :=
  { s with
    queue := (s.queue.call c).2
    accepted := s.accepted ++ s.queue.accepts c
    delivered := s.delivered ++ s.queue.delivers c }

/-- The call on the queue that the event brings. -/
def calls (s : Exchange) : Event → Option Call
  | .call c => some c
  | .wait _ => some .dequeue
  | .look index => if index < s.waiting.length then some .dequeue else none
  | .expire _ => none

/-- The consumers that wait after the event: one that has got a job does not. -/
def stillWaiting (s : Exchange) : Event → List (Option Nat)
  | .call _ => s.waiting
  | .wait timeout => if s.queue.dequeue.1.isSome then s.waiting else s.waiting ++ [timeout]
  | .look index => if s.queue.dequeue.1.isSome then s.waiting.eraseIdx index else s.waiting
  | .expire index =>
    match s.waiting[index]? with
    | some (some _) => s.waiting.eraseIdx index
    | _ => s.waiting

def step (s : Exchange) (e : Event) : Exchange :=
  { (s.calls e).elim s s.call with waiting := s.stillWaiting e }

/-- A new queue after these events. -/
def run (events : List Event) : Exchange := events.foldl step {}

theorem run_concat (events : List Event) (e : Event) :
    run (events ++ [e]) = (run events).step e := List.foldl_append

theorem run_append (events more : List Event) :
    run (events ++ more) = more.foldl step (run events) := List.foldl_append

def Event.submits : Event → List String
  | .call (.enqueue _ j) => [j.id]
  | _ => []

/-- The ids that producers have submitted, those refused included. -/
def submitted (events : List Event) : List String := events.flatMap Event.submits

/-- What was delivered and what waits are what was accepted, in its order, each job once; the
accepted jobs are the recorded ones, and a record is what the job delivered has become. -/
structure Sound (s : Exchange) : Prop where
  order : s.delivered.map Job.id ++ s.queue.pending = s.accepted
  once : s.accepted.Nodup
  recorded : ∀ id, id ∈ s.accepted ↔ (s.queue.get? id).isSome
  grown : ∀ d ∈ s.delivered, ∃ k, s.queue.get? d.id = some k ∧ d.Becomes k

variable {s : Exchange} {id : String}

namespace Sound

theorem new : Sound {} where
  order := rfl
  once := .nil
  recorded id := by
    constructor
    · intro h
      cases h
    · intro h
      cases h
  grown d hd := by cases hd

theorem of_waiting (h : s.Sound) (waiting : List (Option Nat)) : Sound { s with waiting } :=
  ⟨h.order, h.once, h.recorded, h.grown⟩

theorem isSome_of_pending (h : s.Sound) (hid : id ∈ s.queue.pending) :
    (s.queue.get? id).isSome := by
  rw [← h.recorded, ← h.order]
  exact List.mem_append_right _ hid

theorem grown_call (h : s.Sound) (c : Call) {d : Job} (hd : d ∈ s.delivered) :
    ∃ k, (s.queue.call c).2.get? d.id = some k ∧ d.Becomes k := by
  obtain ⟨k, hk, hdk⟩ := h.grown d hd
  obtain ⟨l, hl, hkl⟩ := s.queue.grows_call c d.id k hk
  exact ⟨l, hl, hdk.trans hkl⟩

theorem enqueue (h : s.Sound) (now : Instant) (j : Job) : (s.call (.enqueue now j)).Sound := by
  cases hget : s.queue.get? j.id with
  | some k =>
    have hsame : s.call (.enqueue now j) = s := by
      simp only [Exchange.call, Queue.call, Queue.accepts, Queue.delivers,
        Queue.enqueue_of_some now hget, List.append_nil]
    rw [hsame]
    exact h
  | none =>
    obtain ⟨hok, hpending, hafter⟩ := Queue.enqueue_of_none now hget
    have hnew : j.id ∉ s.accepted := fun hmem => by
      rw [h.recorded, hget] at hmem
      cases hmem
    have haccepts : s.queue.accepts (.enqueue now j) = [j.id] := by rw [Queue.accepts, hok]
    refine ⟨?_, ?_, fun id => ?_, fun d hd => ?_⟩
    · simp only [Exchange.call, Queue.call, Queue.delivers, hpending, haccepts, List.append_nil]
      rw [← List.append_assoc, h.order]
    · simp only [Exchange.call, haccepts]
      exact (List.perm_append_singleton j.id s.accepted).nodup_iff.2
        (List.nodup_cons.2 ⟨hnew, h.once⟩)
    · simp only [Exchange.call, Queue.call, haccepts, List.mem_append, List.mem_singleton, hafter]
      split
      · rename_i hid
        exact iff_of_true (.inr hid) rfl
      · rename_i hid
        rw [or_iff_left hid, h.recorded]
    · exact h.grown_call _ (by simpa [Exchange.call, Queue.delivers] using hd)

theorem dequeue (h : s.Sound) : (s.call .dequeue).Sound := by
  cases hpending : s.queue.pending with
  | nil =>
    have hsame : s.call .dequeue = s := by
      simp only [Exchange.call, Queue.call, Queue.accepts, Queue.delivers,
        Queue.dequeue_of_empty hpending, Option.toList_none, List.append_nil]
    rw [hsame]
    exact h
  | cons id rest =>
    -- The first id has a record, so the queue has no id to skip.
    have hrecorded := h.isSome_of_pending (hpending ▸ List.mem_cons_self)
    obtain ⟨j, hid, hget, htaken⟩ := Queue.dequeue_of_pending hpending hrecorded
    have hdelivers : s.queue.delivers .dequeue = [j] := by
      rw [Queue.delivers, htaken]
      rfl
    refine ⟨?_, ?_, fun i => ?_, fun d hd => ?_⟩
    · have horder := h.order
      rw [hpending] at horder
      simp [Exchange.call, Queue.call, hdelivers, htaken, Queue.accepts, hid, horder]
    · simpa [Exchange.call, Queue.accepts] using h.once
    · simpa [Exchange.call, Queue.call, Queue.accepts] using h.recorded i
    · simp only [Exchange.call, hdelivers, List.mem_append, List.mem_singleton] at hd ⊢
      rcases hd with hd | rfl
      · exact h.grown_call .dequeue hd
      · exact ⟨d, hid ▸ hget, .refl d⟩

/-- A call that leaves the FIFO alone and adds and drops no record. -/
theorem quiet (h : s.Sound) {c : Call} (haccepts : s.queue.accepts c = [])
    (hdelivers : s.queue.delivers c = []) (hkeeps : (s.queue.call c).2.pending = s.queue.pending ∧
      ∀ i, ((s.queue.call c).2.get? i).isSome = (s.queue.get? i).isSome) : (s.call c).Sound := by
  obtain ⟨hpending, hrecords⟩ := hkeeps
  refine ⟨?_, ?_, fun i => ?_, fun d hd => h.grown_call c ?_⟩
  · simp only [Exchange.call, haccepts, hdelivers, hpending, List.append_nil]
    exact h.order
  · simp only [Exchange.call, haccepts, List.append_nil]
    exact h.once
  · simp only [Exchange.call, haccepts, List.append_nil, hrecords]
    exact h.recorded i
  · simpa [Exchange.call, hdelivers] using hd

theorem call (h : s.Sound) (c : Call) : (s.call c).Sound := by
  cases c with
  | enqueue now j => exact h.enqueue now j
  | dequeue => exact h.dequeue
  | setStatus now id next =>
    exact h.quiet rfl rfl (s.queue.advance_keeps now id next fun _ => rfl)
  | assign now id next nodeId =>
    exact h.quiet rfl rfl (s.queue.advance_keeps now id next fun _ => rfl)
  | complete now id result =>
    exact h.quiet rfl rfl (s.queue.advance_keeps now id .completed fun _ => rfl)
  | fail now id message =>
    exact h.quiet rfl rfl (s.queue.advance_keeps now id .failed fun _ => rfl)

theorem step (h : s.Sound) (e : Event) : (s.step e).Sound := by
  unfold Exchange.step
  cases s.calls e with
  | none => exact h.of_waiting _
  | some c => exact (h.call c).of_waiting _

theorem run (events : List Event) : (run events).Sound := by
  induction events using List.reverseRecOn with
  | nil => exact new
  | append_singleton events e ih =>
    rw [run_concat]
    exact ih.step e

end Sound

/-! ### Which submissions are accepted -/

theorem Sound.accepts_enqueue (h : s.Sound) (now : Instant) (j : Job) :
    s.queue.accepts (.enqueue now j) = if j.id ∈ s.accepted then [] else [j.id] := by
  rw [Queue.accepts]
  cases hget : s.queue.get? j.id with
  | some k => rw [Queue.enqueue_of_some now hget, if_pos ((h.recorded j.id).2 (hget ▸ rfl))]
  | none =>
    rw [(Queue.enqueue_of_none now hget).1, if_neg]
    intro hmem
    rw [h.recorded, hget] at hmem
    cases hmem

theorem removeAll_singleton (id : String) (ids : List String) :
    [id].removeAll ids = if id ∈ ids then [] else [id] := by
  by_cases hid : id ∈ ids <;> simp [List.removeAll, hid]

theorem accepted_step (h : s.Sound) (e : Event) :
    (s.step e).accepted = s.accepted ++ e.submits.removeAll s.accepted := by
  cases e with
  | call c =>
    cases c with
    | enqueue now j =>
      rw [Event.submits, removeAll_singleton, ← h.accepts_enqueue now j]
      rfl
    | dequeue | setStatus | assign | complete | fail => rfl
  | wait timeout => rfl
  | look index =>
    simp only [step, calls]
    split
    · rfl
    · exact (List.append_nil _).symm
  | expire index => exact (List.append_nil _).symm

theorem Event.removeAll_submits (e : Event) (ids : List String) :
    e.submits.removeAll ids.eraseDups = (e.submits.removeAll ids).eraseDups := by
  -- An event submits one id at most, and no id is new or old by how often it was submitted.
  have hnone : ([] : List String).removeAll ids.eraseDups =
      (([] : List String).removeAll ids).eraseDups := rfl
  cases e with
  | call c =>
    cases c with
    | enqueue now j =>
      rw [submits, removeAll_singleton, removeAll_singleton]
      by_cases hold : j.id ∈ ids
      · rw [if_pos (List.mem_eraseDups.2 hold), if_pos hold]
        rfl
      · rw [if_neg (mt List.mem_eraseDups.1 hold), if_neg hold]
        rfl
    | dequeue | setStatus | assign | complete | fail => exact hnone
  | wait | look | expire => exact hnone

/-- Of the submissions of one id the first is accepted. -/
theorem accepted_run (events : List Event) :
    (run events).accepted = (submitted events).eraseDups := by
  induction events using List.reverseRecOn with
  | nil => rfl
  | append_singleton events e ih =>
    have hsubmitted : submitted (events ++ [e]) = submitted events ++ e.submits := by
      rw [submitted, List.flatMap_append, List.flatMap_singleton, submitted]
    rw [run_concat, accepted_step (.run events), ih, hsubmitted, List.eraseDups_append,
      e.removeAll_submits]

theorem grows_step (s : Exchange) (e : Event) : s.queue.Grows (s.step e).queue := by
  unfold step
  cases s.calls e with
  | none => exact .refl _
  | some c => exact s.queue.grows_call c

theorem grows_steps (s : Exchange) (events : List Event) :
    s.queue.Grows (events.foldl step s).queue := by
  induction events generalizing s with
  | nil => exact .refl _
  | cons e events ih => exact (s.grows_step e).trans (ih (s.step e))

theorem mem_submitted_iff (events : List Event) (id : String) :
    id ∈ submitted events ↔ ((run events).queue.get? id).isSome := by
  rw [← (Sound.run events).recorded, accepted_run, List.mem_eraseDups]

theorem record_of_first {before after : List Event} {now : Instant} {j : Job}
    (hfirst : j.id ∉ submitted before) :
    ∃ k, (run (before ++ .call (.enqueue now j) :: after)).queue.get? j.id = some k ∧
      { j with status := .pending, createdAt := now, updatedAt := now }.Becomes k := by
  have hnone : (run before).queue.get? j.id = none := by
    rwa [mem_submitted_iff, Bool.not_eq_true, Option.isSome_eq_false_iff,
      Option.isNone_iff_eq_none] at hfirst
  rw [run_append, List.foldl_cons]
  refine grows_steps _ after j.id _ ?_
  exact ((Queue.enqueue_of_none now hnone).2.2 j.id).trans (if_pos rfl)

/-- Whatever producers, consumers and reporters do, whichever waits run out: what was delivered and
what waits are what was accepted, in its order, each job once. So a consumer gets the first of the
jobs that wait, with its record, and goes away without one only if all were delivered; a wait that
runs out changes nothing for the others. Of the submissions of an id the first is accepted, and its
work is the one kept and delivered. -/
theorem delivered_in_order (events : List Event) :
    ((run events).delivered.map Job.id ++ (run events).queue.pending = (run events).accepted ∧
      (run events).accepted.Nodup) ∧
    (∀ id rest, (run events).queue.pending = id :: rest → ∃ j, j.id = id ∧
      (run events).queue.dequeue = (some j, { (run events).queue with pending := rest })) ∧
    (∀ id ∈ (run events).queue.pending, ∃ j, (run events).queue.get? id = some j ∧ j.id = id) ∧
    ((run events).queue.dequeue.1 = none →
      (run events).delivered.map Job.id = (run events).accepted) ∧
    (∀ index, { (run events).step (.expire index) with waiting := (run events).waiting } =
      run events) ∧
    ((run events).accepted = (submitted events).eraseDups ∧
      ∀ now j, ((run events).queue.enqueue now j).1 = .ok () ↔ j.id ∉ submitted events) ∧
    (∀ before now j after, events = before ++ .call (.enqueue now j) :: after →
      j.id ∉ submitted before → ∃ k, (run events).queue.get? j.id = some k ∧
        { j with status := .pending, createdAt := now, updatedAt := now }.Becomes k) ∧
    ∀ d ∈ (run events).delivered, ∃ k, (run events).queue.get? d.id = some k ∧ d.Becomes k := by
  have h := Sound.run events
  refine ⟨⟨h.order, h.once⟩, ?_, ?_, ?_, fun index => rfl, ⟨accepted_run events, ?_⟩, ?_, h.grown⟩
  · intro id rest hpending
    obtain ⟨j, hid, -, htaken⟩ := Queue.dequeue_of_pending hpending
      (h.isSome_of_pending (hpending ▸ List.mem_cons_self))
    exact ⟨j, hid, htaken⟩
  · intro id hid
    obtain ⟨j, hj⟩ := Option.isSome_iff_exists.1 (h.isSome_of_pending hid)
    exact ⟨j, hj, Queue.id_of_get? hj⟩
  · intro hnone
    cases hpending : (run events).queue.pending with
    | nil => rw [← h.order, hpending, List.append_nil]
    | cons id rest =>
      obtain ⟨j, -, -, htaken⟩ := Queue.dequeue_of_pending hpending
        (h.isSome_of_pending (hpending ▸ List.mem_cons_self))
      rw [htaken] at hnone
      cases hnone
  · intro now j
    rw [mem_submitted_iff]
    cases hget : (run events).queue.get? j.id with
    | some k =>
      rw [Queue.enqueue_of_some now hget]
      exact iff_of_false nofun (not_not_intro rfl)
    | none => exact iff_of_true (Queue.enqueue_of_none now hget).1 nofun
  · rintro before now j after rfl hfirst
    exact record_of_first hfirst

/-- A wait runs out; then a job is submitted, reported as running before anybody has taken it,
submitted again with other work, and taken by a consumer that looks again. -/
theorem delivered_in_order_resubmitted :
    let t : Instant := .ofNanos 0
    let job : String → String → Job := fun id payload => .submitted id .embeddings payload t
    let before : List Event := [.wait (some 5), .wait none, .expire 0]
    let after : List Event :=
      [.call (.setStatus t "a" .running), .call (.enqueue t (job "a" "second")),
        .call (.enqueue t (job "b" "third")), .look 0]
    let s := run (before ++ .call (.enqueue t (job "a" "first")) :: after)
    s.delivered.map Job.id ++ s.queue.pending = ["a", "b"] ∧ s.waiting = [] ∧
      (s.queue.enqueue t (job "b" "fourth")).1 ≠ .ok () ∧
      (∃ k, s.queue.get? "a" = some k ∧ k.payload = "first") ∧
      ∃ j, j.id = "b" ∧ s.queue.dequeue = (some j, { s.queue with pending := [] }) := by
  intro t job before after s
  obtain ⟨⟨horder, -⟩, htaken, -, -, -, ⟨haccepted, hnew⟩, hkept, -⟩ :=
    delivered_in_order (before ++ .call (.enqueue t (job "a" "first")) :: after)
  obtain ⟨k, hk, hwork⟩ := hkept before t (job "a" "first") after rfl (by decide)
  refine ⟨horder.trans (haccepted.trans (by decide)), rfl, ?_, ⟨k, hk, hwork.payload⟩,
    htaken "b" [] rfl⟩
  exact fun hok => (hnew t (job "b" "fourth")).1 hok (by decide)

end Exchange

end InferenceFleet
