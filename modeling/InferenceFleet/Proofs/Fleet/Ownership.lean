import InferenceFleet.Proofs.Fleet.TaskSteps
import InferenceFleet.Proofs.Queue.Holds
import Mathlib.Data.List.Perm.Basic

/-!
# Who owns the jobs of a fleet

The jobs that are not finished are shared out between the line of the queue, the loop of the
processor and its tasks (`Fleet.holds`), each to one of them. `Fleet.Owned` is this with what the
holders rely on. A step of the processor preserves it (`Owned.step`), and the change of a record
that the step asks for succeeds.
-/

namespace InferenceFleet

/-- The record of a job that nobody works on: a final one, or that of a chat which a shutdown broke
off. -/
def Job.IsLeft (cancelled : Bool) (j : Job) : Prop :=
  j.status.isTerminal = true ∨
    j.status = .running ∧ j.kind = .chatCompletion ∧ cancelled = true

theorem Job.IsLeft.mono {cancelled cancelled' : Bool} (h : cancelled = true → cancelled' = true)
    {j : Job} (hj : j.IsLeft cancelled) : j.IsLeft cancelled' :=
  hj.imp_right fun ⟨hrunning, hchat, hcancelled⟩ => ⟨hrunning, hchat, h hcancelled⟩

/-! ### The holds -/

def Hold.ofWaiting (id : String) : Hold := ⟨id, fun j => j.status = .pending, true⟩

def Hold.ofHand (job : Job) (s : JobStatus) : Hold :=
  ⟨job.id, fun j => j.kind = job.kind ∧ j.status = s, true⟩

def Loop.holds : Loop → List Hold
  | .holding job => [.ofHand job .pending]
  | .marked job => [.ofHand job .assigned]
  | _ => []

def Task.hold (t : Task) : Hold :=
  ⟨t.job.id, fun j => j.kind = t.job.kind ∧ t.phase.Allows j.status, !t.phase.isPastAsking⟩

theorem Loop.holds_eq_nil {l : Loop} (h : l.job? = none) : l.holds = [] := by
  cases l <;> first | rfl | cases h

theorem Loop.holds_ids (l : Loop) : l.holds.map Hold.id = l.job?.toList.map (·.id) := by
  cases l <;> rfl

namespace Fleet

def holdsOf (pending : List String) (loop : Loop) (tasks : List Task) : List Hold :=
  pending.map .ofWaiting ++ (loop.holds ++ tasks.map Task.hold)

def holds (f : Fleet) : List Hold := holdsOf f.queue.pending f.processor.loop f.processor.tasks

section
variable (pending : List String) (loop : Loop) (tasks : List Task)

theorem holdsOf_ids : (holdsOf pending loop tasks).map Hold.id =
    pending ++ (loop.job?.toList.map (·.id) ++ tasks.map (·.job.id)) := by
  have hwaiting : Hold.id ∘ Hold.ofWaiting = id := rfl
  have htask : Hold.id ∘ Task.hold = fun t => t.job.id := rfl
  rw [holdsOf, List.map_append, List.map_append, List.map_map, List.map_map, Loop.holds_ids,
    hwaiting, htask, List.map_id]

theorem holdsOf_concat (id : String) :
    (holdsOf (pending ++ [id]) loop tasks).Perm (.ofWaiting id :: holdsOf pending loop tasks) := by
  rw [holdsOf, List.map_append, List.append_assoc]
  exact List.perm_middle

theorem holdsOf_hand {h : Hold} (hloop : loop.holds = [h]) :
    (holdsOf pending loop tasks).Perm (h :: holdsOf pending .acquiring tasks) := by
  rw [holdsOf, hloop]
  exact List.perm_middle

theorem holdsOf_spawn (t : Task) :
    (holdsOf pending loop (tasks ++ [t])).Perm (t.hold :: holdsOf pending loop tasks) := by
  rw [holdsOf, List.map_append, ← List.append_assoc, ← List.append_assoc]
  refine (List.perm_append_singleton _ _).trans (List.Perm.cons _ ?_)
  rw [List.append_assoc]
  exact List.Perm.refl _

variable {tasks}

theorem holdsOf_task {i : Nat} {t : Task} (ht : tasks[i]? = some t) :
    (holdsOf pending loop tasks).Perm (t.hold :: holdsOf pending loop (tasks.eraseIdx i)) := by
  obtain ⟨hi, rfl⟩ := List.getElem?_eq_some_iff.1 ht
  have hperm := (List.getElem_cons_eraseIdx_perm hi).symm.map Task.hold
  exact ((hperm.append_left _).append_left _).trans
    ((List.perm_middle.append_left _).trans List.perm_middle)

theorem holdsOf_set {i : Nat} (hi : i < tasks.length) (t : Task) :
    (holdsOf pending loop (tasks.set i t)).Perm
      (t.hold :: holdsOf pending loop (tasks.eraseIdx i)) := by
  have hperm := (List.set_perm_cons_eraseIdx hi t).map Task.hold
  exact ((hperm.append_left _).append_left _).trans
    ((List.perm_middle.append_left _).trans List.perm_middle)

end

/-! ### What a task does to its hold -/

section
variable {f g : Fleet} {t : Task} {phase : Phase} {served : List String} {gone : Job → Prop}
  {rest : List Hold}

/-- A task that marks its job as running succeeds. -/
theorem assign_of_kept (hk : f.queue.Kept served gone (t.hold :: rest)) {payload : Payload}
    {node : Node} (hphase : t.phase = .marking payload node) (now : Instant) :
    (f.queue.assign now t.job.id .running node.id).1 = .ok () ∧
      (f.queue.assign now t.job.id .running node.id).2.pending = f.queue.pending ∧
      (f.queue.assign now t.job.id .running node.id).2.Kept served gone
        (({ t with phase := .seeking payload node } : Task).hold :: rest) := by
  refine hk.advance _ now .running (fun _ => rfl) rfl (fun j hj => ?_) fun _ => ?_
  · obtain ⟨hkind, hstatus⟩ := hj
    rw [hphase] at hstatus
    have hassigned : j.status = .assigned := hstatus
    exact ⟨by rw [hassigned]; rfl, hkind, rfl⟩
  · show (!t.phase.isPastAsking) = true
    rw [hphase]
    rfl

/-- A step of a task leaves the line alone, and the task holds its job on; an agent gets a request
only if the job was not served before. -/
theorem StepsTo.kept (hs : f.StepsTo t g phase)
    (hk : f.queue.Kept served gone (t.hold :: rest)) :
    g.queue.pending = f.queue.pending ∧
      ∃ requests, g.asked = f.asked ++ requests ∧
        g.queue.Kept (served ++ requests.map fun _ => t.job.id) gone
          (({ t with phase } : Task).hold :: rest) := by
  -- Either the records stay, or the job is marked as running and no agent is asked.
  rcases hs.queue with ⟨hqueue, hallows⟩ | ⟨now, payload, node, hphase, hqueue, hnext⟩
  · have hrecord : ∀ j, t.hold.allows j → ({ t with phase } : Task).hold.allows j :=
      fun j ⟨hkind, hstatus⟩ => ⟨hkind, hallows _ hstatus⟩
    rw [hqueue]
    refine ⟨rfl, ?_⟩
    rcases hs.asked with ⟨hasked, hpast⟩ | ⟨a, hasked, hfresh, hpast⟩
    · refine ⟨[], by rw [hasked, List.append_nil], ?_⟩
      rw [List.map_nil, List.append_nil]
      refine hk.relax _ rfl hrecord fun hmay => ?_
      show (!t.phase.isPastAsking) = true
      cases hold : t.phase.isPastAsking with
      | false => rfl
      | true =>
        have hmay' : (!phase.isPastAsking) = true := hmay
        rw [hpast hold] at hmay'
        cases hmay'
    · refine ⟨[a], hasked, hk.serve _ ?_ rfl hrecord ?_⟩
      · show (!t.phase.isPastAsking) = true
        rw [hfresh]
        rfl
      · show (!phase.isPastAsking) = false
        rw [hpast]
        rfl
  · obtain ⟨hok, hpending, hkept⟩ := assign_of_kept hk hphase now
    obtain rfl := hnext hok
    rw [hqueue]
    refine ⟨hpending, ?_⟩
    rcases hs.asked with ⟨hasked, -⟩ | ⟨a, -, -, hpast⟩
    · refine ⟨[], by rw [hasked, List.append_nil], ?_⟩
      rw [List.map_nil, List.append_nil]
      exact hkept
    · cases hpast

/-- A task that has ended records its outcome, which succeeds, and lets its job go. -/
theorem record_of_kept {q : Queue} {cancelled : Bool}
    (hk : q.Kept served (Job.IsLeft cancelled) (t.hold :: rest)) {outcome : Outcome}
    (hphase : t.phase = .ending outcome) (hconsistent : t.Consistent)
    (hcancelled : t.cancelled = true → cancelled = true) (now : Instant) :
    (outcome.record q now t.job.id).1 = .ok () ∧
      (outcome.record q now t.job.id).2.pending = q.pending ∧
      (outcome.record q now t.job.id).2.Kept served (Job.IsLeft cancelled) rest := by
  unfold Task.Consistent at hconsistent
  rw [hphase] at hconsistent
  cases outcome with
  | completed result =>
    refine hk.finish now (fun _ => rfl) (fun _ => rfl) (fun j ⟨_, hstatus⟩ => ?_) rfl
      fun _ => .inl
    rw [hphase] at hstatus
    have hrunning : j.status = .running := hstatus
    rw [hrunning]
    rfl
  | failed fault =>
    refine hk.finish now (fun _ => rfl) (fun _ => rfl) (fun j ⟨_, hstatus⟩ => ?_) rfl
      fun _ => .inl
    rcases hstatus.assigned_or_running with hopen | hopen <;> rw [hopen] <;> rfl
  | interrupted =>
    refine ⟨rfl, rfl, hk.release fun j ⟨hkind, hstatus⟩ => .inr ?_⟩
    rw [hphase] at hstatus
    exact ⟨hstatus, hkind.trans hconsistent.1, hcancelled hconsistent.2⟩

end

/-- Every unfinished job of the fleet has one holder, and those that agents were asked to serve are
`served`, each once. Tasks are broken off only once the fleet is `cancelled`. -/
structure Owned (f : Fleet) (served : List String) (cancelled : Bool) : Prop where
  kept : f.queue.Kept served (Job.IsLeft cancelled) f.holds
  tasks : ∀ t ∈ f.processor.tasks, t.Consistent ∧ (t.cancelled = true → cancelled = true)
  shutdown : f.processor.cancelled = true → cancelled = true

namespace Owned
variable {f g : Fleet} {served : List String} {cancelled : Bool}

theorem ofLimit (limit : Nat) : (Fleet.ofLimit limit).Owned [] false where
  kept :=
    { once := List.nodup_nil
      held := fun _ h => by cases h
      left := fun _ _ h => by cases h
      served_once := List.nodup_nil
      recorded := fun _ h => by cases h
      unserved := fun _ h => by cases h }
  tasks _ h := by cases h
  shutdown h := by cases h

theorem of_kept {q : Queue} {p : Processor} {pending : List String}
    (hkept : q.Kept served (Job.IsLeft cancelled) (holdsOf pending p.loop p.tasks))
    (hpending : q.pending = pending)
    (htasks : ∀ t ∈ p.tasks, t.Consistent ∧ (t.cancelled = true → cancelled = true))
    (hshutdown : p.cancelled = true → cancelled = true) :
    ({ f with queue := q, processor := p } : Fleet).Owned served cancelled := by
  subst hpending
  exact ⟨hkept, htasks, hshutdown⟩

theorem mono (ho : f.Owned served cancelled) {cancelled' : Bool}
    (h : cancelled = true → cancelled' = true) : f.Owned served cancelled' where
  kept := ho.kept.mono fun _ hj => hj.mono h
  tasks t ht := ⟨(ho.tasks t ht).1, fun hc => h ((ho.tasks t ht).2 hc)⟩
  shutdown hc := h (ho.shutdown hc)

theorem sameWork (ho : f.Owned served cancelled) (h : f.SameWork g) : g.Owned served cancelled := by
  obtain ⟨hkept, htasks, hshutdown⟩ := ho
  refine ⟨?_, ?_, ?_⟩
  · rw [holds, h.queue, h.processor]
    exact hkept
  · rw [h.processor]
    exact htasks
  · rw [h.processor]
    exact hshutdown

/-- A change of the loop and of the permits that leaves the job in hand. -/
theorem loop (ho : f.Owned served cancelled) {p : Processor}
    (hloop : p.loop.holds = f.processor.loop.holds) (htasks : p.tasks = f.processor.tasks)
    (hcancelled : p.cancelled = true → f.processor.cancelled = true) :
    ({ f with processor := p } : Fleet).Owned served cancelled := by
  obtain ⟨hkept, hconsistent, hshutdown⟩ := ho
  refine ⟨?_, ?_, fun h => hshutdown (hcancelled h)⟩
  · rw [holds, holdsOf, hloop, htasks]
    exact hkept
  · rw [htasks]
    exact hconsistent

theorem recorded_of_pending (ho : f.Owned served cancelled) {id : String}
    (h : id ∈ f.queue.pending) : ∃ j, f.queue.get? id = some j ∧ j.status = .pending := by
  have hmem : Hold.ofWaiting id ∈ f.holds := List.mem_append_left _ (List.mem_map_of_mem h)
  exact ho.kept.held _ hmem

/-- A new job is submitted. -/
theorem submit (ho : f.Owned served cancelled) {q : Queue} {j : Job} {id : String}
    (hnew : f.queue.get? id = none) (hpending : q.pending = f.queue.pending ++ [id])
    (hget : ∀ i, q.get? i = if i = id then some j else f.queue.get? i)
    (hj : j.status = .pending) : ({ f with queue := q } : Fleet).Owned served cancelled := by
  have hkept := ho.kept.accept (h := .ofWaiting id) hnew hget hj
  exact of_kept (hkept.perm (holdsOf_concat ..).symm) hpending ho.tasks ho.shutdown

/-- The loop takes the job that has waited longest. -/
theorem dequeue (ho : f.Owned served cancelled) {q : Queue} {j : Job} {p : Processor}
    (hloop : f.processor.loop = .polling) (hdequeue : f.queue.dequeue = (some j, q))
    (hp : p = { f.processor with loop := .holding j }) :
    ({ f with queue := q, processor := p } : Fleet).Owned served cancelled := by
  subst hp
  refine ⟨?_, ho.tasks, ho.shutdown⟩
  cases hpending : f.queue.pending with
  | nil =>
    rw [Queue.dequeue, hpending] at hdequeue
    cases hdequeue
  | cons id pending =>
    have hmem : id ∈ f.queue.pending := hpending ▸ List.mem_cons_self
    obtain ⟨k, hget, hstatus⟩ := ho.recorded_of_pending hmem
    rw [Queue.dequeue, hpending, Queue.firstRecorded, hget] at hdequeue
    cases hdequeue
    have hid := Queue.id_of_get? hget
    have hkept := ho.kept
    rw [holds, hpending, hloop] at hkept
    have hhand : Queue.Kept { f.queue with pending } served (Job.IsLeft cancelled)
        (.ofHand j .pending :: holdsOf pending .polling f.processor.tasks) := by
      refine Queue.Kept.move hkept _ hid (fun i => ?_) ⟨rfl, hstatus⟩ fun _ => rfl
      split
      · rename_i hi
        rw [hi]
        exact hget
      · rfl
    exact hhand.perm (holdsOf_hand _ (.holding j) _ rfl).symm

/-- The loop marks its job as assigned, which succeeds. -/
theorem assign (ho : f.Owned served cancelled) {j : Job} (hloop : f.processor.loop = .holding j)
    (now : Instant) :
    (f.queue.setStatus now j.id .assigned).1 = .ok () ∧
      ({ f with
        queue := (f.queue.setStatus now j.id .assigned).2
        processor := { f.processor with loop := .marked j } } : Fleet).Owned served cancelled := by
  have hkept := ho.kept
  rw [holds, hloop] at hkept
  have hhand := hkept.perm (holdsOf_hand _ (.holding j) _ rfl)
  obtain ⟨hok, hpending, hmarked⟩ := hhand.advance (.ofHand j .assigned) now .assigned
    (f := fun k => k) (fun _ => rfl) rfl
    (fun k ⟨hkind, hstatus⟩ => ⟨by rw [hstatus]; rfl, hkind, rfl⟩) fun _ => rfl
  have hperm := holdsOf_hand f.queue.pending (.marked j) f.processor.tasks rfl
  exact ⟨hok, of_kept (hmarked.perm hperm.symm) hpending ho.tasks ho.shutdown⟩

/-- The loop starts the task of its job. -/
theorem spawn (ho : f.Owned served cancelled) {j : Job} (hloop : f.processor.loop = .marked j)
    {p : Processor} (hp : p = { f.processor with
      loop := .acquiring
      tasks := f.processor.tasks ++ [{ job := j, cancelled := f.processor.cancelled }] }) :
    ({ f with processor := p } : Fleet).Owned served cancelled := by
  subst hp
  refine ⟨?_, fun t ht => ?_, ho.shutdown⟩
  · have hkept := ho.kept
    rw [holds, hloop] at hkept
    have hspawn := holdsOf_spawn f.queue.pending .acquiring f.processor.tasks
      { job := j, cancelled := f.processor.cancelled }
    exact (hkept.perm (holdsOf_hand _ (.marked j) _ rfl)).perm hspawn.symm
  · rcases List.mem_append.1 ht with ht | ht
    · exact ho.tasks t ht
    · rw [List.mem_singleton.1 ht]
      exact ⟨trivial, ho.shutdown⟩

/-- The present run is told to shut down. -/
theorem cancel (ho : f.Owned served cancelled) {p : Processor} (hp : p = { f.processor with
      cancelled := true
      tasks := f.processor.tasks.map fun t => { t with cancelled := true } }) :
    ({ f with processor := p } : Fleet).Owned served true := by
  subst hp
  refine ⟨?_, fun t ht => ?_, fun _ => rfl⟩
  · have hholds : Task.hold ∘ (fun t : Task => { t with cancelled := true }) = Task.hold := rfl
    rw [holds, holdsOf, List.map_map, hholds]
    exact ho.kept.mono fun j hj => hj.mono fun _ => rfl
  · obtain ⟨u, hu, rfl⟩ := List.mem_map.1 ht
    exact ⟨(ho.tasks u hu).1.cancel, fun _ => rfl⟩

/-- A task takes a step. -/
theorem task (ho : f.Owned served cancelled) {i : Nat} {t : Task} {phase : Phase}
    (ht : f.processor.tasks[i]? = some t) (hs : f.StepsTo t g phase) :
    ∃ requests, g.asked = f.asked ++ requests ∧
      ({ g with processor := g.processor.setTask i { t with phase } } : Fleet).Owned
        (served ++ requests.map fun _ => t.job.id) cancelled := by
  obtain ⟨hpending, requests, hasked, hkept⟩ := hs.kept (ho.kept.perm (holdsOf_task _ _ ht))
  obtain ⟨hi, -⟩ := List.getElem?_eq_some_iff.1 ht
  obtain ⟨hconsistent, hcancelled⟩ := ho.tasks t (List.mem_of_getElem? ht)
  refine ⟨requests, hasked, of_kept ?_ hpending (fun u hu => ?_) ?_⟩
  · rw [Processor.setTask, hs.processor]
    exact hkept.perm (holdsOf_set _ _ hi _).symm
  · rw [Processor.setTask, hs.processor] at hu
    rcases List.mem_or_eq_of_mem_set hu with hu | rfl
    · exact ho.tasks u hu
    · exact ⟨hs.consistent hconsistent, hcancelled⟩
  · rw [Processor.setTask, hs.processor]
    exact ho.shutdown

/-- A task is done. -/
theorem record (ho : f.Owned served cancelled) {i : Nat} {t : Task} {outcome : Outcome}
    {p : Processor} (ht : f.processor.tasks[i]? = some t) (hphase : t.phase = .ending outcome)
    (now : Instant) (hp : p = { f.processor with
      tasks := f.processor.tasks.eraseIdx i, free := f.processor.free + 1 }) :
    (outcome.record f.queue now t.job.id).1 = .ok () ∧
      ({ f with queue := (outcome.record f.queue now t.job.id).2, processor := p } : Fleet).Owned
        served cancelled := by
  subst hp
  obtain ⟨hconsistent, hcancelled⟩ := ho.tasks t (List.mem_of_getElem? ht)
  obtain ⟨hok, hpending, hkept⟩ := record_of_kept (ho.kept.perm (holdsOf_task _ _ ht)) hphase
    hconsistent hcancelled now
  exact ⟨hok, of_kept hkept hpending
    (fun u hu => ho.tasks u (List.mem_of_mem_eraseIdx hu)) ho.shutdown⟩

/-- Whatever the processor asks of the queue succeeds. -/
theorem update?_ok (ho : f.Owned served cancelled) {m : Move} {r : Except QueueFault Unit}
    (h : f.update? m = some r) : r = .ok () := by
  unfold update? at h
  split at h
  · rename_i now
    split at h
    · rename_i j hloop
      cases h
      exact (ho.assign hloop now).1
    · cases h
  · rename_i i now
    split at h
    · rename_i j cancelled' payload node ht
      cases h
      exact (assign_of_kept (ho.kept.perm (holdsOf_task _ _ ht)) rfl now).1
    · cases h
  · rename_i i now
    split at h
    · rename_i j cancelled' outcome ht
      cases h
      exact (ho.record ht rfl now rfl).1
    · cases h
  · cases h

/-- A step of the processor, whichever it is. -/
theorem step (ho : f.Owned served cancelled) {m : Move} (hs : f.step m = some g) :
    ∃ requests, g.asked = f.asked ++ requests ∧
      g.Owned (served ++ requests.filterMap fun _ => f.worker? (.move m))
        (cancelled || (Event.move m).isCancel) := by
  have hquiet : ∀ {c : Bool}, (c = true → (cancelled || (Event.move m).isCancel) = true) →
      g.asked = f.asked → g.Owned served c → ∃ requests, g.asked = f.asked ++ requests ∧
        g.Owned (served ++ requests.filterMap fun _ => f.worker? (.move m))
          (cancelled || (Event.move m).isCancel) := by
    intro c hc hasked howned
    refine ⟨[], by rw [hasked, List.append_nil], ?_⟩
    rw [List.filterMap_nil, List.append_nil]
    exact howned.mono hc
  have hkeep : cancelled = true → (cancelled || (Event.move m).isCancel) = true := fun h => by
    rw [h, Bool.true_or]
  -- Only a task asks an agent; every other step is quiet.
  cases stepped_of_step hs with
  | loop _ hidle hidle' htasks hcancelled =>
    refine hquiet hkeep rfl (ho.loop ?_ htasks hcancelled)
    rw [Loop.holds_eq_nil hidle', Loop.holds_eq_nil hidle]
  | dequeue hloop hdequeue => exact hquiet hkeep rfl (ho.dequeue hloop hdequeue rfl)
  | @assign job queue now hloop hstatus =>
    have howned := (ho.assign hloop now).2
    rw [hstatus] at howned
    exact hquiet hkeep rfl howned
  | @unassigned job queue now fault hloop hstatus =>
    have hok := (ho.assign hloop now).1
    rw [hstatus] at hok
    cases hok
  | spawn hloop => exact hquiet hkeep rfl (ho.spawn hloop rfl)
  | cancel => exact hquiet (fun _ => Bool.or_true _) rfl (ho.cancel rfl)
  | record ht hphase => exact hquiet hkeep rfl (ho.record ht hphase _ rfl).2
  | @task i t x f' phase ht hstep =>
    obtain ⟨requests, hasked, howned⟩ := ho.task ht (stepsTo_of_stepTask hstep)
    refine ⟨requests, hasked, ?_⟩
    have hids : requests.filterMap (fun _ => some t.job.id) = requests.map fun _ => t.job.id :=
      congrFun (List.filterMap_eq_map (f := fun _ => t.job.id)) requests
    rw [worker?, ht, Option.map_some, hids]
    exact howned.mono hkeep

end Owned

end Fleet

end InferenceFleet
