import InferenceFleet.Control

/-!
# The history of a job's record

`Job.Becomes` says what a later record of a job may be: the same work, a status no earlier, and the
very same record once the status was final. `Queue.Grows` says that every record of a queue is still
there later, as something it may have become. Each operation on a queue makes it grow
(`grows_call`), so every run of operations does (`grows_run`).
-/

namespace InferenceFleet

/-- The record `k` of a job may follow upon its record `j`. -/
structure Job.Becomes (j k : Job) : Prop where
  id : k.id = j.id
  kind : k.kind = j.kind
  payload : k.payload = j.payload
  createdAt : k.createdAt = j.createdAt
  rank : j.status.rank ≤ k.status.rank
  frozen : j.status.isTerminal = true → k = j

namespace Job.Becomes
variable {j k l : Job}

theorem refl (j : Job) : j.Becomes j := ⟨rfl, rfl, rfl, rfl, Nat.le_refl _, fun _ => rfl⟩

theorem trans (h : j.Becomes k) (h' : k.Becomes l) : j.Becomes l where
  id := h'.id.trans h.id
  kind := h'.kind.trans h.kind
  payload := h'.payload.trans h.payload
  createdAt := h'.createdAt.trans h.createdAt
  rank := Nat.le_trans h.rank h'.rank
  frozen hj := by
    obtain rfl := h.frozen hj
    exact h'.frozen hj

end Job.Becomes

/-- The change `f` of a record leaves alone what a job is and its status. -/
structure KeepsJob (f : Job → Job) : Prop where
  id : ∀ j, (f j).id = j.id
  kind : ∀ j, (f j).kind = j.kind
  payload : ∀ j, (f j).payload = j.payload
  createdAt : ∀ j, (f j).createdAt = j.createdAt
  status : ∀ j, (f j).status = j.status

namespace KeepsJob

theorem refl : KeepsJob fun j => j :=
  ⟨fun _ => rfl, fun _ => rfl, fun _ => rfl, fun _ => rfl, fun _ => rfl⟩

theorem assign (nodeId : String) : KeepsJob fun j => { j with assignedNode := some nodeId } :=
  ⟨fun _ => rfl, fun _ => rfl, fun _ => rfl, fun _ => rfl, fun _ => rfl⟩

theorem complete (result : String) :
    KeepsJob fun j => { j with result := some result, errorMessage := none } :=
  ⟨fun _ => rfl, fun _ => rfl, fun _ => rfl, fun _ => rfl, fun _ => rfl⟩

theorem fail (message : String) :
    KeepsJob fun j => { j with errorMessage := some message, result := none } :=
  ⟨fun _ => rfl, fun _ => rfl, fun _ => rfl, fun _ => rfl, fun _ => rfl⟩

end KeepsJob

theorem JobStatus.canMoveTo_iff {s t : JobStatus} :
    s.canMoveTo t = true ↔ s.isTerminal = false ∧ s.rank ≤ t.rank := by
  simp [canMoveTo]

namespace Queue
variable {q q' q'' : Queue} {id : String} {j : Job}

/-- Every record of `q` is in `q'`, as it was or as what it has become. -/
def Grows (q q' : Queue) : Prop :=
  ∀ id j, q.get? id = some j → ∃ k, q'.get? id = some k ∧ j.Becomes k

theorem Grows.refl (q : Queue) : q.Grows q := fun _ j h => ⟨j, h, .refl j⟩

theorem Grows.trans (h : q.Grows q') (h' : q'.Grows q'') : q.Grows q'' := by
  intro id j hj
  obtain ⟨k, hk, hjk⟩ := h id j hj
  obtain ⟨l, hl, hkl⟩ := h' id k hk
  exact ⟨l, hl, hjk.trans hkl⟩

theorem grows_enqueue (q : Queue) (now : Instant) (j : Job) : q.Grows (q.enqueue now j).2 := by
  cases hget : q.get? j.id with
  | some k => rw [enqueue_of_some now hget]; exact .refl q
  | none =>
    intro id k hk
    have hne : id ≠ j.id := fun h => by rw [h, hget] at hk; cases hk
    refine ⟨k, ?_, .refl k⟩
    rw [(enqueue_of_none now hget).2.2, if_neg hne, hk]

theorem grows_dequeue (q : Queue) : q.Grows q.dequeue.2 := .refl q

theorem grows_advance (q : Queue) (now : Instant) (id : String) (next : JobStatus)
    {f : Job → Job} (hf : KeepsJob f) : q.Grows (q.advance now id next f).2 := by
  rcases q.advance_cases now id next hf.id with ⟨j, hj, hmove, -, hget⟩ | ⟨fault, hfault⟩
  · obtain ⟨hterminal, hrank⟩ := JobStatus.canMoveTo_iff.1 hmove
    intro i k hk
    rw [hget]
    split
    · rename_i hi
      obtain rfl : k = j := by rw [hi, hj] at hk; exact (Option.some.inj hk).symm
      refine ⟨_, rfl, hf.id _, hf.kind _, hf.payload _, hf.createdAt _, ?_, ?_⟩
      · rw [hf.status]; exact hrank
      · intro h; rw [hterminal] at h; cases h
    · exact ⟨k, hk, .refl k⟩
  · rw [hfault]
    exact .refl q

theorem grows_setStatus (q : Queue) (now : Instant) (id : String) (next : JobStatus) :
    q.Grows (q.setStatus now id next).2 := q.grows_advance now id next .refl

theorem grows_assign (q : Queue) (now : Instant) (id : String) (next : JobStatus)
    (nodeId : String) : q.Grows (q.assign now id next nodeId).2 :=
  q.grows_advance now id next (.assign nodeId)

theorem grows_complete (q : Queue) (now : Instant) (id result : String) :
    q.Grows (q.complete now id result).2 := q.grows_advance now id _ (.complete result)

theorem grows_fail (q : Queue) (now : Instant) (id message : String) :
    q.Grows (q.fail now id message).2 := q.grows_advance now id _ (.fail message)

/-! ### Runs of operations -/

/-- What can be asked of a queue. However long a consumer waits, each of its attempts to take a job
is a `dequeue`, and other calls may come between two of them. -/
inductive Call where
  | enqueue (now : Instant) (j : Job)
  | dequeue
  | setStatus (now : Instant) (id : String) (next : JobStatus)
  | assign (now : Instant) (id : String) (next : JobStatus) (nodeId : String)
  | complete (now : Instant) (id result : String)
  | fail (now : Instant) (id message : String)

/-- The fault of a call, if it fails, and the queue after it. -/
def call (q : Queue) : Call → Except QueueFault Unit × Queue
  | .enqueue now j => q.enqueue now j
  | .dequeue => (.ok (), q.dequeue.2)
  | .setStatus now id next => q.setStatus now id next
  | .assign now id next nodeId => q.assign now id next nodeId
  | .complete now id result => q.complete now id result
  | .fail now id message => q.fail now id message

def run (q : Queue) (calls : List Call) : Queue := calls.foldl (fun q c => (q.call c).2) q

theorem run_append (q : Queue) (calls more : List Call) :
    q.run (calls ++ more) = (q.run calls).run more := List.foldl_append

theorem grows_call (q : Queue) (c : Call) : q.Grows (q.call c).2 := by
  cases c with
  | enqueue now j => exact q.grows_enqueue now j
  | dequeue => exact q.grows_dequeue
  | setStatus now id next => exact q.grows_setStatus now id next
  | assign now id next nodeId => exact q.grows_assign now id next nodeId
  | complete now id result => exact q.grows_complete now id result
  | fail now id message => exact q.grows_fail now id message

theorem grows_run (q : Queue) (calls : List Call) : q.Grows (q.run calls) := by
  induction calls generalizing q with
  | nil => exact .refl q
  | cons c calls ih => exact (q.grows_call c).trans (ih (q.call c).2)

theorem advance_error {now : Instant} {next : JobStatus} {f : Job → Job} {fault : QueueFault}
    (h : (q.advance now id next f).1 = .error fault) : (q.advance now id next f).2 = q := by
  unfold advance at h ⊢
  split at h
  · rfl
  · split at h
    · cases h
    · rename_i hmove
      rw [if_neg hmove]

/-- A call that fails changes nothing. -/
theorem call_error {c : Call} {fault : QueueFault} (h : (q.call c).1 = .error fault) :
    (q.call c).2 = q := by
  cases c with
  | enqueue now j =>
    cases hget : q.get? j.id with
    | some k => rw [call, enqueue_of_some now hget]
    | none => rw [call, (enqueue_of_none now hget).1] at h; cases h
  | dequeue => cases h
  | setStatus now id next => exact advance_error h
  | assign now id next nodeId => exact advance_error h
  | complete now id result => exact advance_error h
  | fail now id message => exact advance_error h

/-- Reports on a job whose queue has grown: the status is no earlier, and nothing changes after a
final one. -/
theorem Grows.jobStatus {f f' : Fleet} (h : f.queue.Grows f'.queue) {r : JobReport}
    (hr : f.jobStatus id = .ok r) :
    ∃ r', f'.jobStatus id = .ok r' ∧ r.status.rank ≤ r'.status.rank ∧
      (r.status.isTerminal = true → r' = r) := by
  unfold Fleet.jobStatus at hr ⊢
  cases hget : f.queue.get? id with
  | none => rw [hget] at hr; cases hr
  | some j =>
    rw [hget] at hr
    obtain rfl : JobReport.ofJob j = r := Except.ok.inj hr
    obtain ⟨k, hk, hjk⟩ := h id j hget
    refine ⟨.ofJob k, by rw [hk], hjk.rank, fun hfinal => ?_⟩
    rw [hjk.frozen hfinal]

/-- In any run of calls on a queue that was empty at first: a record stays, keeps its work, moves
forward only and is frozen once final, from its acceptance on; a call that fails leaves the queue as
it is; and so the reports on a job never go back and stay the same after a final one. -/
theorem record_history (calls more : List Call) :
    (∀ id j, (empty.run calls).get? id = some j →
      ∃ k, (empty.run (calls ++ more)).get? id = some k ∧ j.Becomes k) ∧
    (∀ now j, ((empty.run calls).call (.enqueue now j)).1 = .ok () →
      ∃ k, (empty.run (calls ++ .enqueue now j :: more)).get? j.id = some k ∧
        { j with status := .pending, createdAt := now, updatedAt := now }.Becomes k) ∧
    (∀ c fault, ((empty.run calls).call c).1 = .error fault →
      ((empty.run calls).call c).2 = empty.run calls) ∧
    ∀ (f f' : Fleet), f.queue = empty.run calls → f'.queue = empty.run (calls ++ more) →
      ∀ id r, f.jobStatus id = .ok r →
        ∃ r', f'.jobStatus id = .ok r' ∧ r.status.rank ≤ r'.status.rank ∧
          (r.status.isTerminal = true → r' = r) := by
  have hgrows : (empty.run calls).Grows (empty.run (calls ++ more)) := by
    rw [run_append]
    exact grows_run _ more
  refine ⟨fun id j h => hgrows id j h, ?_, fun c fault h => call_error h, ?_⟩
  · intro now j h
    rw [run_append, run, List.foldl_cons, ← run]
    apply grows_run _ more j.id
    cases hget : (empty.run calls).get? j.id with
    | some k => rw [call, enqueue_of_some now hget] at h; cases h
    | none => rw [call, (enqueue_of_none now hget).2.2, if_pos rfl]
  · intro f f' hf hf' id r hr
    rw [← hf, ← hf'] at hgrows
    exact hgrows.jobStatus hr

/-- A job that is completed, and then reported as failed and submitted again. -/
theorem record_history_late_failure :
    let t : Instant := .ofNanos 0
    let j : Job := .submitted "a" .embeddings "[]" t
    let calls := [.enqueue t j, .dequeue, .complete t "a" "done"]
    let more := [.fail t "a" "late", .enqueue t j]
    let f : Fleet := { Fleet.ofLimit 1 with queue := empty.run calls }
    let f' : Fleet := { Fleet.ofLimit 1 with queue := empty.run (calls ++ more) }
    (∃ k, (empty.run calls).get? "a" = some k ∧ k.createdAt = t) ∧
      ((empty.run calls).get? "a").map (·.result) = some (some "done") ∧
      ((empty.run calls).call (.fail t "a" "late")).2 = empty.run calls ∧
      ((empty.run (calls ++ more)).get? "a").map (·.result) = some (some "done") ∧
      f'.jobStatus "a" = f.jobStatus "a" := by
  intro t j calls more f f'
  obtain ⟨-, haccepted, -⟩ := record_history [] [.dequeue, .complete t "a" "done"]
  obtain ⟨hstays, -, hfails, hreports⟩ := record_history calls more
  obtain ⟨i, hi, hcreated⟩ := haccepted t j rfl
  obtain ⟨k, hk, hbecomes⟩ := hstays "a" { j with status := .completed, result := some "done" } rfl
  obtain ⟨r, hr, -, hsame⟩ := hreports f f' rfl rfl "a" _ rfl
  refine ⟨⟨i, hi, hcreated.createdAt⟩, rfl,
    hfails _ (.invalidTransition "a" .completed .failed) rfl, ?_, ?_⟩
  · rw [hk, hbecomes.frozen rfl]
    rfl
  · rw [hr, hsame rfl]
    rfl

end Queue

end InferenceFleet
