import InferenceFleet.Proofs.Fleet.Outcomes
import InferenceFleet.Proofs.Fleet.StartOrder

/-!
# What an event does to one job

`Fleet.Recorded` lists what an event can make of the record of a job, and `observed_cases` what
becomes of its task. So a record does not change while its job is running, and is then what a task
wrote when it marked the job (`Life.running_since`). A job in the queue stays there until the loop
takes it, and in the hand of the loop until its task starts (`Life.taken_started`); the loop cannot
put it down otherwise (`Owned.step_holding`, `step_marked`).
-/

namespace InferenceFleet

theorem JobStatus.eq_running_of_rank {s : JobStatus} (hlow : JobStatus.running.rank ≤ s.rank)
    (hhigh : s.rank ≤ JobStatus.running.rank) : s = .running := by
  cases s <;> simp_all [JobStatus.rank]

namespace Fleet
variable {f g : Fleet} {e : Event} {m : Move} {id : String} {a : Account} {j k job : Job}
  {served : List String} {cancelled : Bool}

/-! ### The record -/

/-- All that an event can make of the record `j` of the job `id`. -/
inductive Recorded (f : Fleet) (id : String) (j : Job) : Event → Job → Prop where
  | same {e : Event} : Recorded f id j e j
  | assigned {now : Instant} : j.status = .pending →
    Recorded f id j (.move (.assign now)) { j with status := .assigned, updatedAt := now }
  | marked {i : Nat} {t : Task} {now : Instant} {payload : Payload} {node : Node} :
    f.processor.tasks[i]? = some t → t.job.id = id → t.phase = .marking payload node →
    j.status = .assigned → Recorded f id j (.move (.task i (.mark now)))
      { j with status := .running, updatedAt := now, assignedNode := some node.id }
  | closed {i : Nat} {t : Task} {now : Instant} {outcome : Outcome} :
    f.processor.tasks[i]? = some t → t.job.id = id → t.phase = .ending outcome →
    outcome ≠ .interrupted → Recorded f id j (.move (.task i (.record now))) (outcome.note now j)

theorem Owned.recorded_of_step (ho : f.Owned served cancelled) (hget : f.queue.get? id = some j)
    (hs : f.step m = some g) :
    ∃ k, g.queue.get? id = some k ∧ f.Recorded id j (.move m) k := by
  cases stepped_of_step hs with
  | loop => exact ⟨j, hget, .same⟩
  | @dequeue job queue _ hdequeue =>
    refine ⟨j, ?_, .same⟩
    rw [← hget, ← Queue.get?_dequeue f.queue, hdequeue]
  | @assign job queue now hloop hstatus =>
    have hqueue : queue = (f.queue.setStatus now job.id .assigned).2 := by rw [hstatus]
    subst hqueue
    by_cases hid : id = job.id
    · obtain ⟨k, hk, hpending⟩ := ho.record_of_hand (s := .pending) (by rw [hloop]; rfl)
      obtain rfl : k = j := Option.some.inj (hk.symm.trans (hid ▸ hget))
      have hmove : k.status.canMoveTo .assigned = true := by
        rw [hpending]
        rfl
      have hassigned := (Queue.advance_of_canMoveTo now (f := fun j => j) (fun _ => rfl) hk
        hmove).2.2 id
      rw [if_pos hid] at hassigned
      exact ⟨_, hassigned, .assigned hpending⟩
    · exact ⟨j, (Queue.get?_advance_of_ne hid _ now _ fun _ => rfl).trans hget, .same⟩
  | @unassigned job queue now fault hloop hstatus =>
    have hok := (ho.assign hloop now).1
    rw [hstatus] at hok
    cases hok
  | spawn => exact ⟨j, hget, .same⟩
  | cancel => exact ⟨j, hget, .same⟩
  | @record i t now outcome ht hphase =>
    by_cases hid : id = t.job.id
    · subst hid
      obtain ⟨k, hk, hallows⟩ := ho.record_of_task (List.mem_of_getElem? ht)
      obtain rfl := Option.some.inj (hk.symm.trans hget)
      have hopen : k.status.isTerminal = false := by
        rcases hallows.assigned_or_running with hs | hs <;> rw [hs] <;> rfl
      refine ⟨_, Outcome.get?_record hget hopen outcome now, ?_⟩
      cases outcome with
      | interrupted => exact .same
      | completed result => exact .closed ht rfl hphase nofun
      | failed fault => exact .closed ht rfl hphase nofun
    · exact ⟨j, (outcome.get?_record_of_ne f.queue now hid).trans hget, .same⟩
  | @task i t x f' phase ht hstep =>
    have hsteps := stepsTo_of_stepTask hstep
    show ∃ k, f'.queue.get? id = some k ∧ _
    cases taskStepped_of_stepTask hstep with
    | @mark payload node now queue hphase hassign =>
      have hqueue : queue = (f.queue.assign now t.job.id .running node.id).2 := by rw [hassign]
      subst hqueue
      by_cases hid : id = t.job.id
      · obtain ⟨k, hk, hallows⟩ := ho.record_of_task (List.mem_of_getElem? ht)
        obtain rfl : k = j := Option.some.inj (hk.symm.trans (hid ▸ hget))
        rw [hphase] at hallows
        have hassigned : k.status = .assigned := hallows
        have hmove : k.status.canMoveTo .running = true := by
          rw [hassigned]
          rfl
        have hrunning := (Queue.advance_of_canMoveTo now
          (f := fun j => { j with assignedNode := some node.id }) (fun _ => rfl) hk hmove).2.2 id
        rw [if_pos hid] at hrunning
        exact ⟨_, hrunning, .marked ht hid.symm hphase hassigned⟩
      · refine ⟨j, Eq.trans ?_ hget, .same⟩
        exact Queue.get?_advance_of_ne hid f.queue now .running fun _ => rfl
    | @unmarked payload node now fault queue hphase hassign =>
      have hok := (assign_of_kept (ho.kept.perm (holdsOf_task _ _ ht)) hphase now).1
      rw [hassign] at hok
      cases hok
    | _ =>
      -- No other step of a task changes the queue.
      refine ⟨j, ?_, .same⟩
      rcases hsteps.queue with ⟨hqueue, -⟩ | ⟨now, payload, node, hphase, -⟩
      · rw [hqueue, hget]
      · simp_all

/-- Every event takes a record on in one of these ways. -/
theorem Owned.recorded_after (ho : f.Owned served cancelled) (hget : f.queue.get? id = some j)
    (e : Event) : ∃ k, (f.after e).queue.get? id = some k ∧ f.Recorded id j e k := by
  rcases f.after_cases e with
    ⟨m, rfl, hstep⟩ | ⟨queue, new, l, hafter, -, hnew, -, hqueue, -⟩ | ⟨hwork, -⟩
  · exact ho.recorded_of_step hget hstep
  · refine ⟨j, ?_, .same⟩
    have hne : id ≠ new := fun h => by rw [h, hnew] at hget; cases hget
    rw [hafter, hqueue, if_neg hne, hget]
  · exact ⟨j, by rw [hwork.queue, hget], .same⟩

/-- A record that was not there before is that of a job that waits in the queue. -/
theorem recorded_new (hnone : f.queue.get? id = none)
    (hget : (f.after e).queue.get? id = some k) :
    k.status = .pending ∧ id ∈ (f.after e).queue.pending := by
  rcases f.after_cases e with
    ⟨m, -, hstep⟩ | ⟨queue, new, l, hafter, -, -, hpending, hqueue, hl⟩ | ⟨hwork, -⟩
  · obtain ⟨j, hj⟩ := (updates_of_step hstep).recorded id k hget
    rw [hnone] at hj
    cases hj
  · rw [hafter, hqueue] at hget
    split at hget
    · rename_i hid
      obtain rfl := Option.some.inj hget
      refine ⟨hl, ?_⟩
      rw [hafter, hpending, hid]
      exact List.mem_append_right _ List.mem_cons_self
    · rw [hnone] at hget
      cases hget
  · rw [hwork.queue, hnone] at hget
    cases hget

theorem Recorded.eq_of_running (h : f.Recorded id j e k) (hj : j.status = .running)
    (hk : k.status = .running) : k = j := by
  cases h with
  | same => rfl
  | assigned hpending =>
    rw [hj] at hpending
    cases hpending
  | marked _ _ _ hassigned =>
    rw [hj] at hassigned
    cases hassigned
  | @closed i t now outcome =>
    cases outcome with
    | completed result => cases hk
    | failed fault => cases hk
    | interrupted => rfl

/-! ### The task -/

theorem mem_tasks_after {i : Nat} {t u : Task} {x : TaskMove} {phase : Phase}
    (ht : f.processor.tasks[i]? = some t) (hstep : f.stepTask t x = some (g, phase)) :
    u ∈ (f.after (.move (.task i x))).processor.tasks ↔
      u = { t with phase } ∨ u ∈ f.processor.tasks.eraseIdx i := by
  obtain ⟨hi, -⟩ := List.getElem?_eq_some_iff.1 ht
  rw [after, step_of_stepTask ht hstep, Option.getD_some, setTask, Processor.setTask,
    (stepsTo_of_stepTask hstep).processor, ← List.mem_cons]
  exact (List.set_perm_cons_eraseIdx hi _).mem_iff

/-- A task takes a step: of its job there is no other task. -/
theorem Owned.phase_after (ho : f.Owned served cancelled) {i : Nat} {t u : Task} {x : TaskMove}
    {phase : Phase} (ht : f.processor.tasks[i]? = some t)
    (hstep : f.stepTask t x = some (g, phase))
    (hu : u ∈ (f.after (.move (.task i x))).processor.tasks) (hid : u.job.id = t.job.id) :
    u.phase = phase := by
  rcases (mem_tasks_after ht hstep).1 hu with rfl | hu
  · rfl
  · exact absurd hid (ho.alone ht hu)

/-- An event leaves the account of a job and the phase of its task alone, at most starting the task,
or is a step of the task. -/
theorem observed_cases (ho : f.Owned served cancelled) (id : String) (a : Account) (e : Event) :
    (f.observed id a e = a ∧ ∀ u ∈ (f.after e).processor.tasks, u.job.id = id →
      (u.phase = .starting ∧ ∃ j, f.queue.get? id = some j ∧ j.status = .assigned) ∨
        ∃ t ∈ f.processor.tasks, t.job.id = id ∧ t.phase = u.phase) ∨
    ∃ i t x g phase, e = .move (.task i x) ∧ f.processor.tasks[i]? = some t ∧ t.job.id = id ∧
      f.stepTask t x = some (g, phase) ∧ f.observed id a e = f.observe t x a := by
  have hkept : ∀ {tasks : List Task}, (∀ u ∈ tasks, u ∈ f.processor.tasks) →
      ∀ u ∈ tasks, u.job.id = id →
        (u.phase = .starting ∧ ∃ j, f.queue.get? id = some j ∧ j.status = .assigned) ∨
          ∃ t ∈ f.processor.tasks, t.job.id = id ∧ t.phase = u.phase :=
    fun hsub u hu hid => .inr ⟨u, hsub u hu, hid, rfl⟩
  have hstill : (f.after e).processor = f.processor → ∀ u ∈ (f.after e).processor.tasks,
      u.job.id = id → (u.phase = .starting ∧ ∃ j, f.queue.get? id = some j ∧ j.status = .assigned) ∨
        ∃ t ∈ f.processor.tasks, t.job.id = id ∧ t.phase = u.phase :=
    fun hsame => hkept fun u hu => by rwa [hsame] at hu
  cases e with
  | move m =>
    cases hstep : f.step m with
    | none =>
      refine .inl ⟨observed_of_step_none hstep, hstill ?_⟩
      rw [after, hstep]
      rfl
    | some g =>
      have hafter : f.after (.move m) = g := by
        rw [after, hstep]
        rfl
      rw [hafter]
      cases stepped_of_step hstep with
      | loop hloop _ _ htasks =>
        refine .inl ⟨?_, hkept fun u hu => htasks ▸ hu⟩
        cases m with
        | task i x => exact absurd rfl (hloop i x)
        | _ => rfl
      | dequeue => exact .inl ⟨rfl, hkept fun _ hu => hu⟩
      | assign => exact .inl ⟨rfl, hkept fun _ hu => hu⟩
      | unassigned => exact .inl ⟨rfl, hkept fun _ hu => hu⟩
      | @spawn job hloop =>
        refine .inl ⟨rfl, fun u hu hid => ?_⟩
        rcases List.mem_append.1 hu with hu | hu
        · exact .inr ⟨u, hu, hid, rfl⟩
        · rw [List.mem_singleton.1 hu] at hid ⊢
          obtain rfl : job.id = id := hid
          exact .inl ⟨rfl, ho.record_of_hand (s := .assigned) (by rw [hloop]; rfl)⟩
      | cancel =>
        refine .inl ⟨rfl, fun u hu hid => .inr ?_⟩
        obtain ⟨t, ht, rfl⟩ := List.mem_map.1 hu
        exact ⟨t, ht, hid, rfl⟩
      | @record i t now outcome ht hphase =>
        have hobserve : f.observe t (.record now) a = a := rfl
        refine .inl ⟨?_, hkept fun u hu => List.mem_of_mem_eraseIdx hu⟩
        simp only [observed, ht]
        rw [hobserve, ite_self]
      | @task i t x f' phase ht hstepTask =>
        by_cases hid : t.job.id = id
        · exact .inr ⟨i, t, x, f', phase, rfl, ht, hid, hstepTask, by
            simp only [observed, ht, if_pos hid]⟩
        · refine .inl ⟨by simp only [observed, ht, if_neg hid], fun u hu hu' => ?_⟩
          rw [← hafter] at hu
          rcases (mem_tasks_after ht hstepTask).1 hu with rfl | hu
          · exact absurd hu' hid
          · exact .inr ⟨u, List.mem_of_mem_eraseIdx hu, hu', rfl⟩
  | submit now r => exact .inl ⟨rfl, hstill (f.processor_submitJob now r)⟩
  | register now r => exact .inl ⟨rfl, hstill (SameWork.registerNode f now r).processor⟩
  | heartbeat now r => exact .inl ⟨rfl, hstill (SameWork.heartbeat f now r).processor⟩
  | update now r => exact .inl ⟨rfl, hstill (SameWork.updateNode f now r).processor⟩
  | sweepNode now timeout i =>
    exact .inl ⟨rfl, hstill (SameWork.sweepNode f now timeout i).processor⟩
  | chat agents r => exact .inl ⟨rfl, hstill (SameWork.chat f agents r).processor⟩
  | embeddings agents r => exact .inl ⟨rfl, hstill (SameWork.embeddings f agents r).processor⟩

/-! ### The job in the hand of the loop -/

/-- Whether the job waits in the queue or the loop has it in its hand. -/
def IsWithLoop (f : Fleet) (id : String) : Prop :=
  id ∈ f.queue.pending ∨ ∃ job, f.processor.loop.job? = some job ∧ job.id = id

/-- The loop puts down a job that it has not marked only by marking it, which it can. -/
theorem Owned.step_holding (ho : f.Owned served cancelled)
    (hloop : f.processor.loop = .holding job) :
    (∀ now, (f.step (.assign now)).isSome) ∧
      ∀ m g, f.step m = some g → g.processor.loop = .holding job ∨
        ∃ now, m = .assign now ∧ g.processor.loop = .marked job ∧
          ∃ j, g.queue.get? job.id = some j ∧ j.status = .assigned := by
  constructor
  · intro now
    simp only [Fleet.step, hloop]
    split <;> rfl
  · intro m g hstep
    cases stepped_of_step hstep with
    | loop _ hidle =>
      rw [hloop] at hidle
      cases hidle
    | dequeue hpolling => simp [hloop] at hpolling
    | @assign job' queue now hholding hstatus =>
      obtain rfl : job = job' := by simpa [hloop] using hholding
      have howned := (ho.assign hloop now).2
      rw [hstatus] at howned
      exact .inr ⟨now, rfl, rfl, howned.record_of_hand rfl⟩
    | @unassigned job' queue now fault hholding hstatus =>
      have hok := (ho.assign hholding now).1
      rw [hstatus] at hok
      cases hok
    | spawn hmarked => simp [hloop] at hmarked
    | cancel => exact .inl hloop
    | record => exact .inl hloop
    | task _ hstepTask =>
      refine .inl ?_
      rw [Processor.setTask, (stepsTo_of_stepTask hstepTask).processor]
      exact hloop

/-- The loop puts down a job that it has marked only by starting its task, which it can. -/
theorem step_marked (hloop : f.processor.loop = .marked job) :
    (f.step .spawn).isSome ∧ ∀ m g, f.step m = some g → g.processor.loop = .marked job ∨
      m = .spawn ∧ ∃ t ∈ g.processor.tasks, t.job = job ∧ t.phase = .starting := by
  constructor
  · simp [step, hloop]
  · intro m g hstep
    cases stepped_of_step hstep with
    | loop _ hidle =>
      rw [hloop] at hidle
      cases hidle
    | dequeue hpolling => simp [hloop] at hpolling
    | assign hholding => simp [hloop] at hholding
    | unassigned hholding => simp [hloop] at hholding
    | @spawn job' hmarked =>
      obtain rfl : job = job' := by simpa [hloop] using hmarked
      exact .inr ⟨rfl, _, List.mem_append_right _ List.mem_cons_self, rfl, rfl⟩
    | cancel => exact .inl hloop
    | record => exact .inl hloop
    | task _ hstepTask =>
      refine .inl ?_
      rw [Processor.setTask, (stepsTo_of_stepTask hstepTask).processor]
      exact hloop

/-- A job stays with the loop unless its task is started. -/
theorem Owned.isWithLoop_of_step (ho : f.Owned served cancelled) (h : f.IsWithLoop id)
    (hs : f.step m = some g) :
    g.IsWithLoop id ∨ m = .spawn ∧ ∃ job, f.processor.loop = .marked job ∧ job.id = id := by
  have hsame : ∀ {g : Fleet}, g.queue.pending = f.queue.pending →
      g.processor.loop.job? = f.processor.loop.job? → g.IsWithLoop id := by
    intro g hpending hloop
    rw [IsWithLoop, hpending, hloop]
    exact h
  cases stepped_of_step hs with
  | loop _ hbefore hafter => exact .inl (hsame rfl (hafter.trans hbefore.symm))
  | @dequeue job queue hloop hdequeue =>
    rcases h with hwaits | ⟨held, hheld, -⟩
    · cases hpending : f.queue.pending with
      | nil => simp [hpending] at hwaits
      | cons first rest =>
        obtain ⟨j, hj, -⟩ := ho.recorded_of_pending (hpending ▸ List.mem_cons_self)
        rw [Queue.dequeue, hpending, Queue.firstRecorded, hj] at hdequeue
        cases hdequeue
        rw [hpending] at hwaits
        rcases List.mem_cons.1 hwaits with rfl | hwaits
        · exact .inl (.inr ⟨_, rfl, Queue.id_of_get? hj⟩)
        · exact .inl (.inl hwaits)
    · rw [hloop] at hheld
      cases hheld
  | @assign job queue now hloop hstatus =>
    have hpending := (f.queue.advance_keeps now job.id .assigned (f := fun j => j) fun _ => rfl).1
    rw [Queue.setStatus] at hstatus
    rw [hstatus] at hpending
    exact .inl (hsame hpending (by rw [hloop]; rfl))
  | @unassigned job queue now fault hloop hstatus =>
    have hok := (ho.assign hloop now).1
    rw [hstatus] at hok
    cases hok
  | @spawn job hloop =>
    rcases h with hwaits | ⟨held, hheld, hid⟩
    · exact .inl (.inl hwaits)
    · rw [hloop] at hheld
      obtain rfl := Option.some.inj hheld
      exact .inr ⟨rfl, job, hloop, hid⟩
  | cancel => exact .inl (hsame rfl rfl)
  | record => exact .inl (hsame (Outcome.pending_record ..) rfl)
  | @task i t x f' phase ht hstepTask =>
    have hsteps := stepsTo_of_stepTask hstepTask
    have hpending : f'.queue.pending = f.queue.pending := by
      obtain ⟨hpending, -⟩ := hsteps.kept (ho.kept.perm (holdsOf_task _ _ ht))
      exact hpending
    refine .inl (hsame hpending ?_)
    rw [Processor.setTask, hsteps.processor]

end Fleet

namespace Life

open Fleet (Event)

variable {l : Life} {id : String} {j k : Job}

theorem run_concat (l : Life) (events : List Event) (e : Event) :
    l.run (events ++ [e]) = (l.run events).after e := List.foldl_concat ..

/-- Between two moments at which a job is running its record stays the same. -/
theorem Sound.running_unchanged (h : l.Sound) (events : List Event)
    (hget : l.fleet.queue.get? id = some j) (hrunning : j.status = .running)
    (hget' : (l.run events).fleet.queue.get? id = some k) (hrunning' : k.status = .running) :
    k = j := by
  induction events generalizing l j with
  | nil => exact Option.some.inj (hget'.symm.trans hget)
  | cons e events ih =>
    obtain ⟨i, hi, hrecorded⟩ := h.owned.recorded_after hget e
    obtain ⟨i', hi', hbecomes⟩ := l.fleet.grows_after e id j hget
    obtain ⟨k', hk', hbecomes'⟩ := (l.after e).grows_run events id i hi
    obtain rfl := Option.some.inj (hi'.symm.trans hi)
    obtain rfl := Option.some.inj (hk'.symm.trans hget')
    have hstill : i'.status = .running := JobStatus.eq_running_of_rank
      (hrunning ▸ hbecomes.rank) (hrunning' ▸ hbecomes'.rank)
    obtain rfl := hrecorded.eq_of_running hrunning hstill
    exact ih (h.after e) hi hstill hk'

/-- The record `k` of the job `id` was written by a task that marked the job as running, in one of
the events, and has been the same ever since. -/
def RunningSince (limit : Nat) (events : List Event) (id : String) (k : Job) : Prop :=
  ∃ earlier i now later, events = earlier ++ .move (.task i (.mark now)) :: later ∧
    k.status = .running ∧ k.updatedAt = now ∧
    (∃ j, ((start limit).run earlier).fleet.queue.get? id = some j ∧ j.status = .assigned) ∧
    ∀ moment, moment <+: later → ((start limit).run
      (earlier ++ .move (.task i (.mark now)) :: moment)).fleet.queue.get? id = some k

theorem exists_marking (limit : Nat) (events : List Event)
    (hget : ((start limit).run events).fleet.queue.get? id = some k)
    (hrunning : k.status = .running) :
    ∃ earlier i now later, events = earlier ++ .move (.task i (.mark now)) :: later ∧
      k.updatedAt = now ∧
      (∃ j, ((start limit).run earlier).fleet.queue.get? id = some j ∧ j.status = .assigned) ∧
      ((start limit).run (earlier ++ [.move (.task i (.mark now))])).fleet.queue.get? id =
        some k := by
  -- The last event that changed the record is the one.
  induction events using List.reverseRecOn with
  | nil => cases hget
  | append_singleton events e ih =>
    have hsound := (Sound.start limit).run events
    rw [run_concat] at hget
    cases hbefore : ((start limit).run events).fleet.queue.get? id with
    | none =>
      obtain ⟨hpending, -⟩ := Fleet.recorded_new hbefore hget
      rw [hrunning] at hpending
      cases hpending
    | some j =>
      obtain ⟨k', hk', hrecorded⟩ := hsound.owned.recorded_after hbefore e
      obtain rfl := Option.some.inj (hk'.symm.trans hget)
      cases hrecorded with
      | same =>
        obtain ⟨earlier, i, now, later, rfl, hmark⟩ := ih hbefore
        exact ⟨earlier, i, now, later ++ [e], by simp, hmark⟩
      | assigned => cases hrunning
      | marked ht hid hphase hassigned =>
        refine ⟨events, _, _, [], rfl, rfl, ⟨j, hbefore, hassigned⟩, ?_⟩
        rw [run_concat]
        exact hget
      | @closed i t now outcome _ _ _ houtcome =>
        cases outcome with
        | completed result => cases hrunning
        | failed fault => cases hrunning
        | interrupted => exact absurd rfl houtcome

/-- A record of a running job is as it was written when the job was marked. -/
theorem running_since (limit : Nat) (events : List Event)
    (hget : ((start limit).run events).fleet.queue.get? id = some k)
    (hrunning : k.status = .running) : RunningSince limit events id k := by
  obtain ⟨earlier, i, now, later, rfl, hnow, hbefore, hmark⟩ :=
    exists_marking limit events hget hrunning
  refine ⟨earlier, i, now, later, rfl, hrunning, hnow, hbefore, ?_⟩
  rintro moment ⟨rest, rfl⟩
  have hsound := (Sound.start limit).run (earlier ++ [.move (.task i (.mark now))])
  have hsplit : ∀ events : List Event, (start limit).run
      (earlier ++ .move (.task i (.mark now)) :: events) =
        ((start limit).run (earlier ++ [.move (.task i (.mark now))])).run events := by
    intro events
    rw [← run_append, List.append_assoc]
    rfl
  rw [hsplit, run_append] at hget
  rw [hsplit]
  obtain ⟨j, hj, hbecomes⟩ := grows_run _ moment id k hmark
  obtain ⟨k', hk', hbecomes'⟩ := grows_run _ rest id j hj
  obtain rfl := Option.some.inj (hk'.symm.trans hget)
  have hstill : j.status = .running := JobStatus.eq_running_of_rank
    (hrunning ▸ hbecomes.rank) (hrunning ▸ hbecomes'.rank)
  rw [hj, hsound.running_unchanged moment hmark hrunning hj hstill]

/-- The loop has started the task of the job `id` in one of the events, when the job was marked as
assigned. -/
def Started (limit : Nat) (events : List Event) (id : String) : Prop :=
  ∃ earlier later job, events = earlier ++ .move .spawn :: later ∧
    ((start limit).run earlier).fleet.processor.loop = .marked job ∧ job.id = id ∧
    ∃ j, ((start limit).run earlier).fleet.queue.get? id = some j ∧ j.status = .assigned

/-- A job that is no longer with the loop has had its task started. -/
theorem taken_started (limit : Nat) (events : List Event)
    (hget : ((start limit).run events).fleet.queue.get? id = some k) :
    ((start limit).run events).fleet.IsWithLoop id ∨ Started limit events id := by
  induction events using List.reverseRecOn generalizing k with
  | nil => cases hget
  | append_singleton events e ih =>
    have howned := ((Sound.start limit).run events).owned
    rw [run_concat] at hget ⊢
    cases hbefore : ((start limit).run events).fleet.queue.get? id with
    | none => exact .inl (.inl (Fleet.recorded_new hbefore hget).2)
    | some j =>
      rcases ih hbefore with hloop | ⟨earlier, later, job, rfl, hstarted⟩
      · rcases Fleet.after_cases ((start limit).run events).fleet e with
          ⟨m, rfl, hstep⟩ | ⟨queue, new, l, hafter, -, -, hpending, -⟩ | ⟨hwork, -⟩
        · rcases howned.isWithLoop_of_step hloop hstep with hstill | ⟨rfl, job, hmarked, rfl⟩
          · exact .inl hstill
          · exact .inr ⟨events, [], job, rfl, hmarked, rfl,
              howned.record_of_hand (by rw [hmarked]; rfl)⟩
        · refine .inl ?_
          show Fleet.IsWithLoop (Fleet.after _ e) id
          rw [hafter]
          refine hloop.imp_left fun hwaits => ?_
          rw [hpending]
          exact List.mem_append_left _ hwaits
        · refine .inl ?_
          show Fleet.IsWithLoop (Fleet.after _ e) id
          rw [Fleet.IsWithLoop, hwork.queue, hwork.processor]
          exact hloop
      · exact .inr ⟨earlier, later ++ [e], job, by simp, hstarted⟩

end Life

end InferenceFleet
