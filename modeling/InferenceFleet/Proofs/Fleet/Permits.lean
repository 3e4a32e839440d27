import InferenceFleet.Proofs.Fleet.Observed
import Mathlib.Data.List.Nodup

/-!
# Permits

The free permits, the one in the hand of the loop and those of the unfinished tasks are as many as
in the beginning, whatever steps a processor takes (`total_of_step`). Each job in progress has one of
those that are not free, so the permits cap the number of jobs in progress.
-/

namespace InferenceFleet

/-- All permits, held or not; each unfinished task holds one. -/
def Processor.total (p : Processor) : Nat := p.free + p.loop.held + p.tasks.length

namespace Fleet
variable {f g : Fleet} {m : Move} {id : String} {j : Job} {served : List String}

/-- No step of any fleet, the passing over of a job included, loses a permit or makes one. -/
theorem total_of_step (h : f.step m = some g) : g.processor.total = f.processor.total := by
  unfold Processor.total
  cases m <;> simp only [step] at h
  case start =>
    split at h <;> cases h
    rename_i hloop
    simp [hloop, Loop.held]
  case acquire =>
    split at h <;> cases h
    rename_i hloop hfree
    simp [hloop, hfree, Loop.held]
  case dequeue =>
    split at h
    · rename_i hloop
      split at h <;> cases h
      simp [hloop, Loop.held]
    · cases h
  case idle =>
    split at h <;> cases h
    rename_i hloop
    simp [hloop, Loop.held]
  case assign now =>
    split at h
    · rename_i job hloop
      -- The permit stays with a job that is marked, and comes back from one that is passed over.
      split at h <;> cases h <;> simp [hloop, Loop.held]
    · cases h
  case spawn =>
    split at h <;> cases h
    rename_i hloop
    simp only [hloop, Loop.held, List.length_append, List.length_singleton]
    omega
  case cancel =>
    split at h <;> cases h
    simp
  case stop =>
    split at h
    · split at h <;> cases h <;> rename_i hloop <;> simp [hloop, Loop.held]
    · cases h
  case task i x =>
    split at h
    · cases h
    · rename_i t ht
      obtain ⟨hi, -⟩ := List.getElem?_eq_some_iff.1 ht
      split at h
      · cases h
        simp only [List.length_eraseIdx, if_pos hi]
        omega
      · split at h <;> cases h
        rename_i hstep
        rw [Processor.setTask, (stepsTo_of_stepTask hstep).processor]
        simp

theorem total_after (f : Fleet) (e : Event) :
    (f.after e).processor.total = f.processor.total := by
  rcases f.after_cases e with ⟨m, -, hstep⟩ | ⟨queue, id, j, hafter, -⟩ | ⟨hwork, -⟩
  · exact total_of_step hstep
  · rw [hafter]
  · rw [hwork.processor]

end Fleet

theorem Life.total_run (l : Life) (events : List Fleet.Event) :
    (l.run events).fleet.processor.total = l.fleet.processor.total := by
  induction events generalizing l with
  | nil => rfl
  | cons e events ih => exact (ih (l.after e)).trans (l.fleet.total_after e)

/-! ### Records in the order of acceptance -/

namespace Queue
variable {q q' : Queue} {id : String} {j : Job}

theorem ids_advance (q : Queue) (now : Instant) (id : String) (next : JobStatus) {f : Job → Job}
    (hf : ∀ j, (f j).id = j.id) :
    (q.advance now id next f).2.jobs.map Job.id = q.jobs.map Job.id := by
  unfold advance
  split
  · rfl
  · split
    · simp only [replace, List.map_map]
      refine List.map_congr_left fun j _ => ?_
      simp only [Function.comp_apply]
      split
      · exact hf _
      · rfl
    · rfl

theorem get?_eq_some_iff (hids : (q.jobs.map Job.id).Nodup) :
    q.get? id = some j ↔ j ∈ q.jobs ∧ j.id = id := by
  constructor
  · intro h
    exact ⟨List.mem_of_find?_eq_some h, id_of_get? h⟩
  · rintro ⟨hj, rfl⟩
    obtain ⟨k, hk⟩ : ∃ k, q.get? j.id = some k := by
      rw [← Option.isSome_iff_exists, get?, List.find?_isSome]
      exact ⟨j, hj, by simp⟩
    rw [hk, List.inj_on_of_nodup_map hids (List.mem_of_find?_eq_some hk) hj (id_of_get? hk)]

/-- The records of the jobs that are assigned or running. -/
def inProgress (q : Queue) : List Job :=
  q.jobs.filter fun j => j.status == .assigned || j.status == .running

theorem mem_inProgress : j ∈ q.inProgress ↔
    j ∈ q.jobs ∧ (j.status = .assigned ∨ j.status = .running) := by
  simp [inProgress]

theorem count_inProgress (q : Queue) :
    q.count .assigned + q.count .running = q.inProgress.length := by
  unfold count inProgress
  induction q.jobs with
  | nil => rfl
  | cons j jobs ih =>
    simp only [List.countP_cons, List.filter_cons]
    cases j.status <;> simp <;> omega

end Queue

namespace Fleet
variable {f g : Fleet} {m : Move} {id : String} {j : Job} {served : List String}

/-- All that a step of the processor can do to the queue: nothing, take the next job, or move a job
on from where it was. -/
theorem queue_of_step (h : f.step m = some g) :
    g.queue = f.queue ∨ g.queue = f.queue.dequeue.2 ∨
      ∃ now id next change, next ≠ .pending ∧ KeepsJob change ∧
        g.queue = (f.queue.advance now id next change).2 := by
  have hmoved : ∀ {now id next change}, next ≠ .pending → KeepsJob change →
      g.queue = (f.queue.advance now id next change).2 →
      g.queue = f.queue ∨ g.queue = f.queue.dequeue.2 ∨
        ∃ now id next change, next ≠ .pending ∧ KeepsJob change ∧
          g.queue = (f.queue.advance now id next change).2 :=
    fun hnext hkeeps hqueue => .inr (.inr ⟨_, _, _, _, hnext, hkeeps, hqueue⟩)
  cases stepped_of_step h with
  | loop => exact .inl rfl
  | dequeue _ hdequeue => exact .inr (.inl (congrArg Prod.snd hdequeue).symm)
  | assign _ hstatus | unassigned _ hstatus =>
    exact hmoved (by simp) .refl (congrArg Prod.snd hstatus).symm
  | spawn => exact .inl rfl
  | cancel => exact .inl rfl
  | @record i t now outcome =>
    cases outcome with
    | completed result => exact hmoved (by simp) (.complete result) rfl
    | failed fault => exact hmoved (by simp) (.fail fault.message) rfl
    | interrupted => exact .inl rfl
  | @task i t x f' phase _ hstep =>
    rcases (stepsTo_of_stepTask hstep).queue with ⟨hqueue, -⟩ | ⟨now, payload, node, -, hqueue, -⟩
    · exact .inl hqueue
    · exact hmoved (by simp) (.assign node.id) hqueue

theorem ids_of_step (h : f.step m = some g) :
    g.queue.jobs.map Job.id = f.queue.jobs.map Job.id := by
  rcases queue_of_step h with hqueue | hqueue | ⟨now, id, next, change, -, hkeeps, hqueue⟩
  · rw [hqueue]
  · rw [hqueue]
    rfl
  · rw [hqueue]
    exact f.queue.ids_advance now id next hkeeps.id

/-- A submission is refused, or its record comes last and its id last in the line. -/
theorem submitJob_eq (f : Fleet) (now : Instant) (r : Submission) :
    (∃ refusal, f.submitJob now r = (.error refusal, f)) ∨
      ∃ kind receipt, JobKind.ofName? r.jobType = some kind ∧ receipt.jobId = r.jobId ∧
        f.queue.get? r.jobId = none ∧ f.submitJob now r = (.ok receipt, { f with queue :=
          { pending := f.queue.pending ++ [r.jobId]
            jobs := f.queue.jobs ++ [.submitted r.jobId kind r.payload now] } }) := by
  unfold submitJob
  split
  · exact .inl ⟨_, rfl⟩
  · split
    · exact .inl ⟨_, rfl⟩
    · rename_i kind hkind
      cases hget : f.queue.get? r.jobId with
      | some k =>
        have hrefused := Queue.enqueue_of_some (j := .submitted r.jobId kind r.payload now) now hget
        simp only [hrefused]
        exact .inl ⟨_, rfl⟩
      | none =>
        have haccepted : f.queue.enqueue now (.submitted r.jobId kind r.payload now) = (.ok (),
            { pending := f.queue.pending ++ [r.jobId]
              jobs := f.queue.jobs ++ [.submitted r.jobId kind r.payload now] }) := by
          simp only [Queue.enqueue, Job.submitted, hget]
        simp only [haccepted]
        exact .inr ⟨kind, _, hkind, rfl, trivial, rfl⟩

theorem ids_submitJob (f : Fleet) (now : Instant) (r : Submission) :
    (f.submitJob now r).2.queue.jobs.map Job.id =
      f.queue.jobs.map Job.id ++ (f.accepted? (.submit now r)).toList := by
  rcases f.submitJob_eq now r with ⟨refusal, h⟩ | ⟨kind, receipt, -, hid, -, h⟩
  · simp [accepted?, h]
  · simp [accepted?, h, hid, Job.submitted]

theorem ids_after (f : Fleet) (e : Event) :
    (f.after e).queue.jobs.map Job.id =
      f.queue.jobs.map Job.id ++ (f.accepted? e).toList := by
  have hsame : ∀ g, f.SameWork g → g.queue.jobs.map Job.id = f.queue.jobs.map Job.id ++ [] := by
    intro g hwork
    rw [hwork.queue, List.append_nil]
  cases e with
  | move m =>
    cases hstep : f.step m with
    | none =>
      rw [after, hstep]
      exact hsame f (.refl f)
    | some g =>
      rw [after, hstep]
      exact (ids_of_step hstep).trans (List.append_nil _).symm
  | submit now r => exact f.ids_submitJob now r
  | register now r => exact hsame _ (.registerNode f now r)
  | heartbeat now r => exact hsame _ (.heartbeat f now r)
  | update now r => exact hsame _ (.updateNode f now r)
  | sweepNode now timeout id => exact hsame _ (.sweepNode f now timeout id)
  | chat agents r => exact hsame _ (.chat f agents r)
  | embeddings agents r => exact hsame _ (.embeddings f agents r)

end Fleet

/-- The job that is not marked as assigned yet. -/
def Loop.unmarked? : Loop → Option Job
  | .holding job => some job
  | _ => none

/-- The job that is marked as assigned and has no task yet. -/
def Loop.marked? : Loop → Option Job
  | .marked job => some job
  | _ => none

/-- A step that something else brings about: an agent, the end of a poll, an order to shut down. -/
def Move.isAwaited : Move → Bool
  | .task _ (.dial _) | .task _ (.reply _) | .task _ (.item _) | .task _ .over => true
  | .idle | .cancel => true
  | _ => false

namespace Fleet
variable {f : Fleet} {id : String} {j : Job} {served : List String} {cancelled : Bool}

/-- The ids of the jobs that are still to be marked, the one that the loop has taken first. -/
def line (f : Fleet) : List String :=
  f.processor.loop.unmarked?.toList.map (·.id) ++ f.queue.pending

/-- The ids of the jobs that the loop has marked and that tasks have. -/
def underWay (f : Fleet) : List String :=
  f.processor.loop.marked?.toList.map (·.id) ++ f.processor.tasks.map (·.job.id)

theorem length_underWay (f : Fleet) :
    f.underWay.length ≤ f.processor.loop.held + f.processor.tasks.length := by
  rw [underWay, List.length_append, List.length_map, List.length_map]
  cases f.processor.loop <;> simp [Loop.marked?, Loop.held]

theorem Owned.nodup_underWay (ho : f.Owned served cancelled) : f.underWay.Nodup := by
  have honce := ho.kept.once
  rw [holds, holdsOf_ids] at honce
  have hhand : (f.processor.loop.marked?.toList.map (·.id)).Sublist
      (f.processor.loop.job?.toList.map (·.id)) := by
    cases f.processor.loop <;> simp [Loop.marked?, Loop.job?]
  exact honce.sublist ((hhand.append (.refl _)).trans (List.sublist_append_right _ _))

theorem Owned.record_of_underWay (ho : f.Owned served cancelled) (hid : id ∈ f.underWay) :
    ∃ j, f.queue.get? id = some j ∧ (j.status = .assigned ∨ j.status = .running) := by
  rcases List.mem_append.1 hid with hid | hid
  · cases hloop : f.processor.loop <;> rw [hloop] at hid
    case marked job =>
      obtain rfl := List.mem_singleton.1 hid
      obtain ⟨j, hget, hassigned⟩ := ho.record_of_hand (s := .assigned) (by rw [hloop]; rfl)
      exact ⟨j, hget, .inl hassigned⟩
    all_goals cases hid
  · obtain ⟨t, ht, rfl⟩ := List.mem_map.1 hid
    obtain ⟨j, hget, hallows⟩ := ho.record_of_task ht
    exact ⟨j, hget, hallows.assigned_or_running⟩

theorem Owned.record_of_line (ho : f.Owned served cancelled) (hid : id ∈ f.line) :
    ∃ j, f.queue.get? id = some j ∧ j.status = .pending := by
  rcases List.mem_append.1 hid with hid | hid
  · cases hloop : f.processor.loop <;> rw [hloop] at hid
    case holding job =>
      obtain rfl := List.mem_singleton.1 hid
      exact ho.record_of_hand (s := .pending) (by rw [hloop]; rfl)
    all_goals cases hid
  · exact ho.recorded_of_pending hid

/-- Whoever has a job can be told from its record. -/
theorem Owned.place (ho : f.Owned served cancelled) (hget : f.queue.get? id = some j) :
    (id ∈ f.line ∧ j.status = .pending) ∨
      (id ∈ f.underWay ∧ (j.status = .assigned ∨ j.status = .running)) ∨ j.IsLeft cancelled := by
  by_cases hheld : id ∈ f.holds.map Hold.id
  · rw [holds, holdsOf_ids, List.mem_append, List.mem_append] at hheld
    rcases hheld with hid | hid | hid
    · obtain ⟨k, hk, hpending⟩ := ho.recorded_of_pending hid
      obtain rfl := Option.some.inj (hk.symm.trans hget)
      exact .inl ⟨List.mem_append_right _ hid, hpending⟩
    · cases hloop : f.processor.loop <;> rw [hloop] at hid
      case holding job =>
        have hline : id ∈ f.line := List.mem_append_left _ (by rw [hloop]; exact hid)
        obtain ⟨k, hk, hpending⟩ := ho.record_of_line hline
        obtain rfl := Option.some.inj (hk.symm.trans hget)
        exact .inl ⟨hline, hpending⟩
      case marked job =>
        have hunder : id ∈ f.underWay := List.mem_append_left _ (by rw [hloop]; exact hid)
        obtain ⟨k, hk, hstatus⟩ := ho.record_of_underWay hunder
        obtain rfl := Option.some.inj (hk.symm.trans hget)
        exact .inr (.inl ⟨hunder, hstatus⟩)
      all_goals cases hid
    · have hunder : id ∈ f.underWay := List.mem_append_right _ hid
      obtain ⟨k, hk, hstatus⟩ := ho.record_of_underWay hunder
      obtain rfl := Option.some.inj (hk.symm.trans hget)
      exact .inr (.inl ⟨hunder, hstatus⟩)
  · exact .inr (.inr (ho.kept.left id j hget hheld))

/-- The jobs in the line are those whose records are pending. -/
theorem Owned.mem_line (ho : f.Owned served cancelled) (hget : f.queue.get? id = some j) :
    id ∈ f.line ↔ j.status = .pending := by
  constructor
  · intro hid
    obtain ⟨k, hk, hpending⟩ := ho.record_of_line hid
    obtain rfl := Option.some.inj (hk.symm.trans hget)
    exact hpending
  · intro hpending
    rcases ho.place hget with ⟨hline, -⟩ | ⟨-, hstatus⟩ | hleft
    · exact hline
    · simp [hpending] at hstatus
    · simp [Job.IsLeft, hpending, JobStatus.isTerminal] at hleft

/-- Before a shutdown, nobody else has a job in progress. -/
theorem Owned.mem_underWay (ho : f.Owned served false) (hget : f.queue.get? id = some j)
    (hstatus : j.status = .assigned ∨ j.status = .running) : id ∈ f.underWay := by
  rcases ho.place hget with ⟨-, hpending⟩ | ⟨hunder, -⟩ | hfinal | ⟨-, -, hcancelled⟩
  · simp [hpending] at hstatus
  · exact hunder
  · rcases hstatus with hs | hs <;> rw [hs] at hfinal <;> cases hfinal
  · cases hcancelled

theorem Owned.count_inProgress (ho : f.Owned served false)
    (hids : (f.queue.jobs.map Job.id).Nodup) :
    f.queue.count .assigned + f.queue.count .running = f.underWay.length := by
  have hmem : ∀ id, id ∈ f.queue.inProgress.map Job.id ↔ id ∈ f.underWay := by
    intro id
    constructor
    · intro hid
      obtain ⟨j, hj, rfl⟩ := List.mem_map.1 hid
      obtain ⟨hjob, hstatus⟩ := Queue.mem_inProgress.1 hj
      exact ho.mem_underWay ((Queue.get?_eq_some_iff hids).2 ⟨hjob, rfl⟩) hstatus
    · intro hid
      obtain ⟨j, hget, hstatus⟩ := ho.record_of_underWay hid
      obtain ⟨hjob, rfl⟩ := (Queue.get?_eq_some_iff hids).1 hget
      exact List.mem_map_of_mem (Queue.mem_inProgress.2 ⟨hjob, hstatus⟩)
  have hnodup : (f.queue.inProgress.map Job.id).Nodup :=
    hids.sublist (List.filter_sublist.map Job.id)
  have hperm := (List.perm_ext_iff_of_nodup hnodup ho.nodup_underWay).2 hmem
  rw [Queue.count_inProgress, ← hperm.length_eq, List.length_map]

/-- All that can still happen is what others bring about. -/
def Quiet (f : Fleet) : Prop := ∀ m : Move, m.isAwaited = false → f.step m = none

/-- A fleet comes to rest with nothing to take, or with no permit to take it. -/
theorem Quiet.cases (hq : f.Quiet) (ho : f.Owned served cancelled) :
    (f.processor.loop = .polling ∧ f.queue.pending = []) ∨
      (f.processor.loop = .acquiring ∧ f.processor.free = 0) := by
  cases hloop : f.processor.loop with
  | stopped =>
    have h := hq .start rfl
    simp [step, hloop] at h
  | acquiring =>
    have h := hq .acquire rfl
    cases hfree : f.processor.free with
    | zero => exact .inr ⟨rfl, rfl⟩
    | succ free => simp [step, hloop, hfree] at h
  | polling =>
    have h := hq .dequeue rfl
    cases hpending : f.queue.pending with
    | nil => exact .inl ⟨rfl, rfl⟩
    | cons id rest =>
      have hmem : id ∈ f.queue.pending := hpending ▸ List.mem_cons_self
      obtain ⟨j, hget, -⟩ := ho.recorded_of_pending hmem
      simp [step, hloop, Queue.dequeue, Queue.firstRecorded, hpending, hget] at h
  | holding job =>
    have h := hq (.assign (.ofNanos 0)) rfl
    simp only [step, hloop] at h
    split at h <;> cases h
  | marked job =>
    have h := hq .spawn rfl
    simp [step, hloop] at h

/-- A fleet is at rest when all permits are with tasks that wait for their agents. -/
theorem quiet_of_waiting (hloop : f.processor.loop = .acquiring) (hfree : f.processor.free = 0)
    (hup : f.processor.cancelled = false)
    (htasks : ∀ t ∈ f.processor.tasks, ∃ payload node target, t.phase = .waiting payload node target) :
    f.Quiet := by
  intro m hm
  cases m with
  | task i x =>
    cases ht : f.processor.tasks[i]? with
    | none => simp [step, ht]
    | some t =>
      obtain ⟨payload, node, target, hphase⟩ := htasks t (List.mem_of_getElem? ht)
      cases x with
      | dial result => cases hm
      | reply r => cases hm
      | item i => cases hm
      | «over» => cases hm
      | _ => simp [step, stepTask, ht, hphase]
  | idle => cases hm
  | cancel => cases hm
  | _ => simp [step, hloop, hfree, hup]

end Fleet

end InferenceFleet
