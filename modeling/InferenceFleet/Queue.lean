import InferenceFleet.Failure

/-!
# The queue of jobs

Every job ever accepted, in the order of acceptance, and the ids of those that still wait, first
come first served. Taking a job from the queue leaves its record; a record changes only along
`JobStatus.canMoveTo`. An operation gives its result and the queue after it, also when it fails.
-/

namespace InferenceFleet

structure Queue where
  pending : List String
  jobs : List Job
  deriving DecidableEq

namespace Queue

def empty : Queue := { pending := [], jobs := [] }

def get? (q : Queue) (id : String) : Option Job := q.jobs.find? fun j => j.id == id

/-- Accepts a job whose id is new, as pending from now on. -/
def enqueue (q : Queue) (now : Instant) (j : Job) : Except QueueFault Unit × Queue :=
  match q.get? j.id with
  | some _ => (.error (.alreadyExists j.id), q)
  | none =>
    (.ok (),
      { pending := q.pending ++ [j.id]
        jobs := q.jobs ++ [{ j with status := .pending, createdAt := now, updatedAt := now }] })

/-- The first of the ids `ids` that has a record, and the ids after it. -/
def firstRecorded (q : Queue) : List String → Option Job × List String
  | [] => (none, [])
  | id :: ids =>
    match q.get? id with
    | some j => (some j, ids)
    | none => q.firstRecorded ids

/-- Takes the next job, if one waits. -/
def dequeue (q : Queue) : Option Job × Queue :=
  let (job, pending) := q.firstRecorded q.pending
  (job, { q with pending })

/-- Replaces the record of `id`. -/
def replace (q : Queue) (id : String) (f : Job → Job) : Queue :=
  { q with jobs := q.jobs.map fun j => if j.id = id then f j else j }

/-- Moves a job to the status `next` and changes it further by `f`. -/
def advance (q : Queue) (now : Instant) (id : String) (next : JobStatus) (f : Job → Job) :
    Except QueueFault Unit × Queue :=
  match q.get? id with
  | none => (.error (.notFound id), q)
  | some j =>
    if j.status.canMoveTo next then
      (.ok (), q.replace id fun j => f { j with status := next, updatedAt := now })
    else (.error (.invalidTransition id j.status next), q)

def setStatus (q : Queue) (now : Instant) (id : String) (next : JobStatus) :
    Except QueueFault Unit × Queue :=
  q.advance now id next fun j => j

def assign (q : Queue) (now : Instant) (id : String) (next : JobStatus) (nodeId : String) :
    Except QueueFault Unit × Queue :=
  q.advance now id next fun j => { j with assignedNode := some nodeId }

def complete (q : Queue) (now : Instant) (id result : String) : Except QueueFault Unit × Queue :=
  q.advance now id .completed fun j => { j with result := some result, errorMessage := none }

def fail (q : Queue) (now : Instant) (id message : String) : Except QueueFault Unit × Queue :=
  q.advance now id .failed fun j => { j with errorMessage := some message, result := none }

/-- How many jobs have the status. -/
def count (q : Queue) (s : JobStatus) : Nat := q.jobs.countP fun j => j.status = s

/-! ### The records after an operation -/

variable {q : Queue} {id : String} {j : Job}

theorem id_of_get? (h : q.get? id = some j) : j.id = id := by
  simpa using List.find?_some h

theorem get?_replace (q : Queue) (id : String) {f : Job → Job} (hf : ∀ j, (f j).id = j.id)
    (i : String) : (q.replace id f).get? i = if i = id then (q.get? i).map f else q.get? i := by
  have hkey : ((fun j : Job => j.id == i) ∘ fun j => if j.id = id then f j else j) =
      fun j => j.id == i := by
    funext j
    by_cases hj : j.id = id <;> simp [hj, hf]
  rw [get?, replace, List.find?_map, hkey, ← get?]
  cases hget : q.get? i with
  | none => simp
  | some j => by_cases hi : i = id <;> simp [id_of_get? hget, hi]

/-- A job whose id is new is accepted, another one is refused. -/
theorem enqueue_of_some (now : Instant) {k : Job} (h : q.get? j.id = some k) :
    q.enqueue now j = (.error (.alreadyExists j.id), q) := by
  rw [enqueue, h]

theorem enqueue_of_none (now : Instant) (h : q.get? j.id = none) :
    (q.enqueue now j).1 = .ok () ∧ (q.enqueue now j).2.pending = q.pending ++ [j.id] ∧
      ∀ i, (q.enqueue now j).2.get? i =
        if i = j.id then some { j with status := .pending, createdAt := now, updatedAt := now }
        else q.get? i := by
  refine ⟨by rw [enqueue, h], by rw [enqueue, h], fun i => ?_⟩
  simp only [enqueue, h]
  simp only [get?] at h ⊢
  rw [List.find?_append]
  by_cases hi : i = j.id
  · simp [hi, h]
  · have hne : ¬ j.id = i := fun hj => hi hj.symm
    simp [hi, hne]

theorem get?_of_firstRecorded {ids rest : List String}
    (h : q.firstRecorded ids = (some j, rest)) : q.get? j.id = some j := by
  induction ids with
  | nil => cases h
  | cons id ids ih =>
    unfold firstRecorded at h
    split at h
    · rename_i hget
      cases h
      rw [id_of_get? hget, hget]
    · exact ih h

theorem get?_of_dequeue {q' : Queue} (h : q.dequeue = (some j, q')) : q.get? j.id = some j := by
  have hfirst : (q.firstRecorded q.pending).1 = some j := congrArg Prod.fst h
  exact get?_of_firstRecorded (Prod.ext hfirst rfl)

@[simp] theorem get?_dequeue (q : Queue) (i : String) : q.dequeue.2.get? i = q.get? i := rfl

/-- A change of status succeeds for a job that may move so, and leaves the queue as it is for every
other. -/
theorem advance_of_canMoveTo (now : Instant) {next : JobStatus} {f : Job → Job}
    (hf : ∀ j, (f j).id = j.id) (h : q.get? id = some j) (hmove : j.status.canMoveTo next = true) :
    (q.advance now id next f).1 = .ok () ∧ (q.advance now id next f).2.pending = q.pending ∧
      ∀ i, (q.advance now id next f).2.get? i =
        if i = id then some (f { j with status := next, updatedAt := now }) else q.get? i := by
  have hreplace := get?_replace q id (f := fun j => f { j with status := next, updatedAt := now })
    fun j => hf _
  simp only [advance, h, hmove, if_true]
  refine ⟨trivial, rfl, fun i => ?_⟩
  rw [hreplace]
  split
  · rename_i hi
    rw [hi, h]
    rfl
  · rfl

/-- What a change of status can do. -/
theorem advance_cases (q : Queue) (now : Instant) (id : String) (next : JobStatus) {f : Job → Job}
    (hf : ∀ j, (f j).id = j.id) :
    (∃ j, q.get? id = some j ∧ j.status.canMoveTo next = true ∧
      (q.advance now id next f).2.pending = q.pending ∧
      ∀ i, (q.advance now id next f).2.get? i =
        if i = id then some (f { j with status := next, updatedAt := now }) else q.get? i) ∨
    ∃ fault, q.advance now id next f = (.error fault, q) := by
  cases hget : q.get? id with
  | none => exact .inr ⟨.notFound id, by rw [advance, hget]⟩
  | some j =>
    by_cases hmove : j.status.canMoveTo next = true
    · obtain ⟨-, hpending, hafter⟩ := advance_of_canMoveTo now hf hget hmove
      exact .inl ⟨j, rfl, hmove, hpending, hafter⟩
    · refine .inr ⟨.invalidTransition id j.status next, ?_⟩
      simp only [advance, hget, if_neg hmove]

theorem get?_advance_of_ne {i : String} (hi : i ≠ id) (q : Queue) (now : Instant)
    (next : JobStatus) {f : Job → Job} (hf : ∀ j, (f j).id = j.id) :
    (q.advance now id next f).2.get? i = q.get? i := by
  have hreplace := get?_replace q id (f := fun j => f { j with status := next, updatedAt := now })
    (fun j => hf _) i
  rw [if_neg hi] at hreplace
  unfold advance
  split
  · rfl
  · split
    · exact hreplace
    · rfl

end Queue

end InferenceFleet
