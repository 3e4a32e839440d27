import InferenceFleet.Proofs.Fleet.Permits
import InferenceFleet.Proofs.Queue.Delivery

/-!
# The order in which jobs start

An event takes a job from the head of the line or puts one at its end (`line_after`). As those in the
line are the pending ones, jobs cease to be pending in the order in which they were accepted
(`InOrder.run`), and nothing has touched the record of a job before.
-/

namespace InferenceFleet

namespace Queue
variable {q : Queue} {i id : String} {j : Job}

/-- The ids of the jobs that are pending, in the order of their records. -/
def waiting (q : Queue) : List String := (q.jobs.filter fun j => j.status == .pending).map Job.id

/-- If the pending records are those of the last jobs, these are the jobs that wait. -/
theorem waiting_of_ids {gone line : List String} (hids : q.jobs.map Job.id = gone ++ line)
    (honce : (gone ++ line).Nodup) (hline : ∀ j ∈ q.jobs, j.id ∈ line ↔ j.status = .pending) :
    q.waiting = line := by
  obtain ⟨before, behind, hjobs, rfl, rfl⟩ := List.map_eq_append_iff.1 hids
  obtain ⟨-, -, hapart⟩ := List.nodup_append.1 honce
  have hbefore : before.filter (fun j => j.status == .pending) = [] := by
    rw [List.filter_eq_nil_iff]
    intro j hj hpending
    have hmem : j ∈ q.jobs := hjobs ▸ List.mem_append_left _ hj
    have hin := (hline j hmem).2 (by simpa using hpending)
    exact hapart j.id (List.mem_map_of_mem hj) j.id hin rfl
  have hbehind : behind.filter (fun j => j.status == .pending) = behind := by
    rw [List.filter_eq_self]
    intro j hj
    have hmem : j ∈ q.jobs := hjobs ▸ List.mem_append_right _ hj
    simpa using (hline j hmem).1 (List.mem_map_of_mem hj)
  rw [waiting, hjobs, List.filter_append, hbefore, hbehind, List.nil_append]

/-- A change of status makes no record pending. -/
theorem get?_of_advance_pending {now : Instant} {next : JobStatus} {f : Job → Job}
    (hf : KeepsJob f) (hnext : next ≠ .pending)
    (h : (q.advance now id next f).2.get? i = some j) (hj : j.status = .pending) :
    q.get? i = some j := by
  rcases q.advance_cases now id next hf.id with ⟨k, -, -, -, hget⟩ | ⟨fault, hfault⟩
  · rw [hget] at h
    split at h
    · obtain rfl := Option.some.inj h
      rw [hf.status] at hj
      exact absurd hj hnext
    · exact h
  · rw [hfault] at h
    exact h

end Queue

theorem Outcome.pending_record (o : Outcome) (q : Queue) (now : Instant) (id : String) :
    (o.record q now id).2.pending = q.pending := by
  cases o with
  | completed result => exact (q.advance_keeps now id .completed (KeepsJob.complete result).id).1
  | failed fault => exact (q.advance_keeps now id .failed (KeepsJob.fail fault.message).id).1
  | interrupted => rfl

namespace Fleet
variable {f g : Fleet} {m : Move} {id : String} {j : Job} {served : List String} {cancelled : Bool}

/-! ### The line -/

/-- A step of the processor leaves the line alone or takes its first job out of it. -/
theorem line_of_step (ho : f.Owned served cancelled) (h : f.step m = some g) :
    ∃ gone, f.line = gone ++ g.line := by
  have hunmarked : ∀ {l : Loop}, l.job? = none → l.unmarked? = none := by
    intro l hl
    cases l <;> first | rfl | cases hl
  cases stepped_of_step h with
  | loop _ hbefore hafter =>
    refine ⟨[], ?_⟩
    rw [List.nil_append, line, line, hunmarked hbefore, hunmarked hafter]
  | @dequeue job queue hloop hdequeue =>
    refine ⟨[], ?_⟩
    rw [List.nil_append, line, line, hloop]
    cases hpending : f.queue.pending with
    | nil =>
      rw [Queue.dequeue, hpending] at hdequeue
      cases hdequeue
    | cons id rest =>
      have hmem : id ∈ f.queue.pending := hpending ▸ List.mem_cons_self
      obtain ⟨k, hget, -⟩ := ho.recorded_of_pending hmem
      rw [Queue.dequeue, hpending, Queue.firstRecorded, hget] at hdequeue
      cases hdequeue
      obtain rfl := Queue.id_of_get? hget
      rfl
  | @assign job queue now hloop hstatus =>
    have hpending := (f.queue.advance_keeps now job.id .assigned (f := fun j => j) fun _ => rfl).1
    rw [Queue.setStatus] at hstatus
    rw [hstatus] at hpending
    refine ⟨[job.id], ?_⟩
    rw [line, line, hloop, hpending]
    rfl
  | @unassigned job queue now fault hloop hstatus =>
    have hok := (ho.assign hloop now).1
    rw [hstatus] at hok
    cases hok
  | spawn hloop =>
    refine ⟨[], ?_⟩
    rw [List.nil_append, line, line, hloop]
    rfl
  | cancel => exact ⟨[], rfl⟩
  | @record i t now outcome =>
    refine ⟨[], ?_⟩
    rw [List.nil_append, line, line, outcome.pending_record]
  | @task i t x f' phase _ hstep =>
    have hsteps := stepsTo_of_stepTask hstep
    refine ⟨[], ?_⟩
    have hpending : f'.queue.pending = f.queue.pending := by
      rcases hsteps.queue with ⟨hqueue, -⟩ | ⟨now, payload, node, -, hqueue, -⟩
      · rw [hqueue]
      · rw [hqueue]
        exact (f.queue.advance_keeps now t.job.id .running (KeepsJob.assign node.id).id).1
    rw [List.nil_append, line, line, hpending, Processor.setTask, hsteps.processor]

/-- Only the head of the line goes, and only an accepted job joins it, at its end. -/
theorem line_after (ho : f.Owned served cancelled) (e : Event) :
    ∃ gone rest, f.line = gone ++ rest ∧
      (f.after e).line = rest ++ (f.accepted? e).toList := by
  rcases f.after_cases e with ⟨m, rfl, hstep⟩ |
    ⟨queue, id, j, hafter, haccepted, -, hpending, -⟩ | ⟨hsame, hrefused, -⟩
  · obtain ⟨gone, hline⟩ := line_of_step ho hstep
    exact ⟨gone, _, hline, (List.append_nil _).symm⟩
  · refine ⟨[], f.line, rfl, ?_⟩
    rw [hafter, haccepted, line, line, hpending, List.append_assoc]
    rfl
  · refine ⟨[], f.line, rfl, ?_⟩
    rw [hrefused, Option.toList_none, List.append_nil, line, hsame.processor, hsame.queue]
    rfl

/-- The ids of the jobs that cease to be pending in the event. -/
def leaving (f : Fleet) (e : Event) : List String :=
  f.queue.waiting.filter fun id => id ∉ (f.after e).queue.waiting

/-- If no id waits twice, those that are at the front of the line only before the event leave. -/
theorem leaving_eq {e : Event} {out rest new : List String} (hbefore : f.queue.waiting = out ++ rest)
    (hafter : (f.after e).queue.waiting = rest ++ new) (honce : (out ++ (rest ++ new)).Nodup) :
    f.leaving e = out := by
  obtain ⟨-, -, hapart⟩ := List.nodup_append.1 honce
  have hout : out.filter (fun id => id ∉ rest ++ new) = out := by
    rw [List.filter_eq_self]
    intro id hid
    exact decide_eq_true fun hmem => hapart id hid id hmem rfl
  have hrest : rest.filter (fun id => id ∉ rest ++ new) = [] := by
    rw [List.filter_eq_nil_iff]
    intro id hid
    simp [hid]
  rw [leaving, hbefore, hafter, List.filter_append, hout, hrest, List.append_nil]

/-- The ids of the jobs that cease to be pending in the events, in the order in which they do. -/
def departures (f : Fleet) : List Event → List String
  | [] => []
  | e :: events => f.leaving e ++ (f.after e).departures events

/-! ### Records that nothing has touched -/

/-- The event submits the job whose record is `j`. -/
def Event.Submits : Event → Job → Prop
  | .submit now r, j =>
    ∃ kind, JobKind.ofName? r.jobType = some kind ∧ j = .submitted r.jobId kind r.payload now
  | _, _ => False

theorem get?_of_step_pending (h : f.step m = some g) (hget : g.queue.get? id = some j)
    (hj : j.status = .pending) : f.queue.get? id = some j := by
  rcases queue_of_step h with hqueue | hqueue | ⟨now, i, next, change, hnext, hkeeps, hqueue⟩
  · rw [hqueue] at hget
    exact hget
  · rw [hqueue] at hget
    exact hget
  · rw [hqueue] at hget
    exact Queue.get?_of_advance_pending hkeeps hnext hget hj

/-- A pending record was there before the event, the very same, or the event has submitted its
job. -/
theorem get?_of_after_pending {e : Event} (hget : (f.after e).queue.get? id = some j)
    (hj : j.status = .pending) : f.queue.get? id = some j ∨ e.Submits j := by
  have hwork : ∀ {g : Fleet}, f.SameWork g → g.queue.get? id = some j →
      f.queue.get? id = some j ∨ e.Submits j := fun hsame hget => .inl (hsame.queue ▸ hget)
  cases e with
  | move m =>
    cases hstep : f.step m with
    | none =>
      rw [after, hstep] at hget
      exact .inl hget
    | some g =>
      rw [after, hstep] at hget
      exact .inl (get?_of_step_pending hstep hget hj)
  | submit now r =>
    rcases f.submitJob_eq now r with ⟨refusal, h⟩ | ⟨kind, receipt, hkind, -, hnew, h⟩
    · rw [after, h] at hget
      exact .inl hget
    · rw [after, h, Queue.get?, List.find?_append] at hget
      cases hold : f.queue.get? id with
      | some k =>
        rw [Queue.get?] at hold
        rw [hold] at hget
        exact .inl hget
      | none =>
        rw [Queue.get?] at hold
        rw [hold, Option.none_or] at hget
        have hmem := List.mem_singleton.1 (List.mem_of_find?_eq_some hget)
        exact .inr ⟨kind, hkind, hmem⟩
  | register now r => exact hwork (.registerNode f now r) hget
  | heartbeat now r => exact hwork (.heartbeat f now r) hget
  | update now r => exact hwork (.updateNode f now r) hget
  | sweepNode now timeout id => exact hwork (.sweepNode f now timeout id) hget
  | chat agents r => exact hwork (.chat f agents r) hget
  | embeddings agents r => exact hwork (.embeddings f agents r) hget

/-- Nobody has begun with a pending job. -/
theorem Owned.unbegun_of_pending (ho : f.Owned served cancelled) (hget : f.queue.get? id = some j)
    (hj : j.status = .pending) : (∀ t ∈ f.processor.tasks, t.job.id ≠ id) ∧ id ∉ served := by
  constructor
  · rintro t ht rfl
    obtain ⟨k, hk, hallows⟩ := ho.record_of_task ht
    obtain rfl := Option.some.inj (hk.symm.trans hget)
    have hopen := hallows.assigned_or_running
    simp [hj] at hopen
  · rcases List.mem_append.1 ((ho.mem_line hget).2 hj) with hid | hid
    · cases hloop : f.processor.loop <;> rw [hloop] at hid
      case holding job =>
        obtain rfl := List.mem_singleton.1 hid
        refine ho.kept.unserved (.ofHand job .pending) ?_ rfl
        rw [holds, holdsOf, hloop]
        exact List.mem_append_right _ List.mem_cons_self
      all_goals cases hid
    · exact ho.kept.unserved (.ofWaiting id) (List.mem_append_left _ (List.mem_map_of_mem hid)) rfl

end Fleet

namespace Life

open Fleet (Event)

variable {l : Life} {gone : List String}

theorem cancelled_run {events : List Event} (hup : ∀ e ∈ events, e.isCancel = false) :
    (l.run events).cancelled = l.cancelled := by
  induction events generalizing l with
  | nil => rfl
  | cons e events ih =>
    have hrest := ih (l := l.after e) fun e' he' => hup e' (List.mem_cons_of_mem e he')
    refine hrest.trans ?_
    rw [after, hup e List.mem_cons_self, Bool.or_false]

theorem pending_run {events : List Event} {id : String} {j : Job}
    (hget : (l.run events).fleet.queue.get? id = some j) (hj : j.status = .pending) :
    l.fleet.queue.get? id = some j ∨ ∃ e ∈ events, e.Submits j := by
  induction events generalizing l with
  | nil => exact .inl hget
  | cons e events ih =>
    rcases ih (l := l.after e) hget with hbefore | ⟨e', he', hsubmits⟩
    · rcases Fleet.get?_of_after_pending hbefore hj with hfirst | hsubmits
      · exact .inl hfirst
      · exact .inr ⟨e, List.mem_cons_self, hsubmits⟩
    · exact .inr ⟨e', List.mem_cons_of_mem e he', hsubmits⟩

/-- The jobs in the line came after those that are `gone` from it. -/
structure InOrder (l : Life) (gone : List String) : Prop where
  sound : l.Sound
  ids : l.fleet.queue.jobs.map Job.id = l.accepted
  order : l.accepted = gone ++ l.fleet.line

namespace InOrder

theorem start (limit : Nat) : (Life.start limit).InOrder [] where
  sound := .start limit
  ids := rfl
  order := rfl

theorem nodup_ids (h : l.InOrder gone) : (l.fleet.queue.jobs.map Job.id).Nodup :=
  h.ids ▸ h.sound.accepted_once

theorem waiting (h : l.InOrder gone) : l.fleet.queue.waiting = l.fleet.line := by
  refine Queue.waiting_of_ids (h.ids.trans h.order) (h.order ▸ h.sound.accepted_once) fun j hj => ?_
  exact h.sound.owned.mem_line ((Queue.get?_eq_some_iff h.nodup_ids).2 ⟨hj, rfl⟩)

theorem after (h : l.InOrder gone) (e : Event) :
    (l.after e).InOrder (gone ++ l.fleet.leaving e) := by
  have hids : (l.fleet.after e).queue.jobs.map Job.id = (l.after e).accepted := by
    rw [l.fleet.ids_after e, h.ids]
    rfl
  obtain ⟨out, rest, hline, hline'⟩ := Fleet.line_after h.sound.owned e
  have horder : (l.after e).accepted = gone ++ out ++ (l.fleet.after e).line := by
    show l.accepted ++ _ = _
    rw [h.order, hline, hline', List.append_assoc, List.append_assoc, List.append_assoc]
  have hnext : (l.after e).InOrder (gone ++ out) := ⟨h.sound.after e, hids, horder⟩
  have honce : (out ++ (l.fleet.after e).line).Nodup := by
    have hnodup := horder ▸ hnext.sound.accepted_once
    rw [List.append_assoc] at hnodup
    exact (List.nodup_append.1 hnodup).2.1
  have hleaving : l.fleet.leaving e = out :=
    Fleet.leaving_eq (h.waiting.trans hline) (hnext.waiting.trans hline') (hline' ▸ honce)
  rw [hleaving]
  exact hnext

theorem run (h : l.InOrder gone) (events : List Event) :
    (l.run events).InOrder (gone ++ l.fleet.departures events) := by
  induction events generalizing l gone with
  | nil =>
    rw [Fleet.departures, List.append_nil]
    exact h
  | cons e events ih =>
    rw [Fleet.departures, ← List.append_assoc]
    exact ih (h.after e)

end InOrder

/-- In every life with `n` permits, until somebody shuts the processor down: the free permits, that
of the loop and those of the tasks are `n`, and no event of any fleet loses one, so at most `n` jobs
are in progress. Jobs cease to be pending in the order of their acceptance, and a pending one is as
it was submitted. A fleet that comes to rest has started all its jobs, or has `n` in progress. -/
theorem permits_cap_jobs (n : Nat) (hn : 0 < n) (events : List Event)
    (hup : ∀ e ∈ events, e.isCancel = false) :
    let l := (start n).run events
    let p := l.fleet.processor
    let q := l.fleet.queue
    p.free + p.loop.held + p.tasks.length = n ∧
      (∀ (f : Fleet) (e : Event), (f.after e).processor.total = f.processor.total) ∧
      q.count .assigned + q.count .running ≤ n ∧
      l.accepted = (Fleet.ofLimit n).departures events ++ q.waiting ∧
      (∀ id j, q.get? id = some j → j.status = .pending →
        (∃ e ∈ events, e.Submits j) ∧ (∀ t ∈ p.tasks, t.job.id ≠ id) ∧
          ∀ a, (some id, a) ∉ l.requests) ∧
      (l.fleet.Quiet → q.waiting = [] ∨ q.count .assigned + q.count .running = n) := by
  intro l p q
  have hpermits : (Fleet.ofLimit n).processor.total = n := by
    have hlimited : n ≠ 0 := Nat.ne_of_gt hn
    simp [Processor.total, Fleet.ofLimit, Processor.ofLimit, Processor.permits, Loop.held, hlimited]
  have htotal : p.free + p.loop.held + p.tasks.length = n :=
    ((start n).total_run events).trans hpermits
  have horder : l.InOrder ([] ++ (Fleet.ofLimit n).departures events) :=
    (InOrder.start n).run events
  have howned : l.fleet.Owned (l.requests.filterMap Prod.fst) false := by
    have hcancelled : l.cancelled = false := cancelled_run hup
    exact hcancelled ▸ horder.sound.owned
  have hcount : q.count .assigned + q.count .running = l.fleet.underWay.length :=
    howned.count_inProgress horder.nodup_ids
  have hunder : l.fleet.underWay.length ≤ p.loop.held + p.tasks.length := l.fleet.length_underWay
  refine ⟨htotal, Fleet.total_after, ?_, ?_, fun id j hget hj => ?_, fun hquiet => ?_⟩
  · rw [hcount]
    omega
  · rw [horder.order, horder.waiting, List.nil_append]
  · obtain ⟨htasks, hserved⟩ := howned.unbegun_of_pending hget hj
    refine ⟨?_, htasks, fun a ha => hserved ?_⟩
    · rcases pending_run hget hj with hbefore | hsubmits
      · cases hbefore
      · exact hsubmits
    · exact List.mem_filterMap.2 ⟨(some id, a), ha, rfl⟩
  · rcases hquiet.cases howned with ⟨hloop, hpending⟩ | ⟨hloop, hfree⟩
    · refine .inl ?_
      rw [horder.waiting, Fleet.line, hloop, hpending]
      rfl
    · -- All permits are with tasks, and each of them has a job in progress.
      have htasks : l.fleet.underWay.length = p.tasks.length := by
        rw [Fleet.underWay, hloop]
        exact List.length_map _
      have hheld : p.loop.held = 0 := by
        rw [show p.loop = .acquiring from hloop]
        rfl
      have hnone : p.free = 0 := hfree
      refine .inr ?_
      rw [hcount, htasks]
      omega

/-- Two jobs and one permit, when the agent that has to serve the first does not answer. -/
theorem permits_cap_jobs_hanging :
    let now : Instant := .ofNanos 0
    let submit (id : String) : Event := .submit now ⟨id, "embeddings", "[\"m\",[\"x\"]]"⟩
    let taken : List Event :=
      [.register now { node := some { id := "n", hostname := "h" } }, submit "a", submit "b",
        .move .start, .move .acquire, .move .idle, .move .acquire, .move .dequeue,
        .move (.assign now), .move .spawn]
    let asked : List TaskMove := [.read, .select, .mark now, .seek, .dial (.ok ()), .ask]
    let events : List Event := taken ++ asked.map fun m => .move (.task 0 m)
    let f := ((start 1).run events).fleet
    (0 < 1 ∧ ∀ e ∈ events, e.isCancel = false) ∧ f.Quiet ∧
      (Fleet.ofLimit 1).departures events = ["a"] ∧ f.queue.waiting = ["b"] ∧
      f.queue.count .assigned + f.queue.count .running = 1 := by
  intro now submit taken asked events f
  have hup : ∀ e ∈ events, e.isCancel = false := by
    simp [events, taken, asked, submit, Fleet.Event.isCancel]
  have hquiet : f.Quiet := by
    have hphases : f.processor.tasks.map (·.phase) = [.waiting (.embeddings ⟨"m", ["x"]⟩)
        { id := "n", hostname := "h", lastSeen := some now } "h:50052"] := by decide +kernel
    refine Fleet.quiet_of_waiting (by decide +kernel) (by decide +kernel) (by decide +kernel) ?_
    intro t ht
    have hphase : t.phase ∈ f.processor.tasks.map (·.phase) := List.mem_map_of_mem ht
    rw [hphases] at hphase
    exact ⟨_, _, _, List.mem_singleton.1 hphase⟩
  have hwaiting : f.queue.waiting = ["b"] := by decide +kernel
  have haccepted : ((start 1).run events).accepted = ["a", "b"] := by decide +kernel
  obtain ⟨-, -, -, horder, -, hrest⟩ := permits_cap_jobs 1 (by decide) events hup
  refine ⟨⟨by decide, hup⟩, hquiet, ?_, hwaiting, ?_⟩
  · have hdepartures :=
      calc (Fleet.ofLimit 1).departures events ++ ["b"]
        _ = (Fleet.ofLimit 1).departures events ++ f.queue.waiting := congrArg _ hwaiting.symm
        _ = ((start 1).run events).accepted := horder.symm
        _ = ["a"] ++ ["b"] := haccepted
    exact List.append_cancel_right hdepartures
  · rcases hrest hquiet with hnone | hfull
    · rw [hwaiting] at hnone
      cases hnone
    · exact hfull

end Life

end InferenceFleet
