import InferenceFleet.Proofs.Fleet.Accounts
import InferenceFleet.Proofs.Fleet.CachedClients
import InferenceFleet.Proofs.Fleet.Placement

/-!
# The account of a job along the events

`Fleet.observed` keeps the account of a job up to date, whatever else happens to the fleet meanwhile,
and `Fleet.Told` says that the job's record has come as far as the account: the invariant for one
job (`Told.after`). It needs nodes that are kept under their own ids, and jobs in hand whose work is
that of their records (`Fleet.UpToDate`).
-/

namespace InferenceFleet

namespace Fleet

/-- The account of the job `id` after an event. -/
def observed (f : Fleet) (id : String) (a : Account) : Event → Account
  | .move (.task index m) =>
    match f.processor.tasks[index]? with
    | some t => if t.job.id = id then f.observe t m a else a
    | none => a
  | _ => a

/-- The account of the job `id` after some events. -/
def accountOf (f : Fleet) (id : String) (a : Account) : List Event → Account
  | [] => a
  | e :: events => (f.after e).accountOf id (f.observed id a e) events

variable {f g : Fleet} {agents : Agents} {now : Instant} {t u : Task} {m : Move} {i : Nat}
  {x : TaskMove} {phase : Phase} {id : String} {a : Account} {j k : Job} {served : List String}
  {cancelled : Bool}

/-! ### The nodes -/

theorem registry_of_stepTask (h : f.stepTask t x = some (g, phase)) : g.registry = f.registry := by
  cases taskStepped_of_stepTask h with
  | @dial payload node slot result target g hphase hconnect =>
    have hregistry := f.connect_registry slot node.agentTarget result
    rw [hconnect] at hregistry
    exact hregistry
  | @noClient payload node slot result fault g hphase hconnect =>
    have hregistry := f.connect_registry slot node.agentTarget result
    rw [hconnect] at hregistry
    exact hregistry
  | _ => rfl

theorem registry_of_step (h : f.step m = some g) : g.registry = f.registry := by
  cases stepped_of_step h with
  | @task i t x f' phase _ hstep => exact registry_of_stepTask (g := f') hstep
  | _ => rfl

theorem named_after (h : f.registry.Named) (e : Event) : (f.after e).registry.Named := by
  have hchange : ∀ {dial g h'}, Change dial f h' → h'.SameNodes g → g.registry.Named :=
    fun hchange hsame => hsame.registry ▸ hchange.named h
  cases e with
  | move m =>
    cases hstep : f.step m with
    | none =>
      rw [after, hstep]
      exact h
    | some g =>
      rw [after, hstep]
      exact registry_of_step hstep ▸ h
  | submit now r => exact (f.sameNodes_submitJob now r).registry ▸ h
  | register now r =>
    obtain ⟨g, hg, hsame⟩ := f.change_take (fun _ => .ok ()) (.register now r)
    exact hchange hg hsame
  | heartbeat now r =>
    obtain ⟨g, hg, hsame⟩ := f.change_take (fun _ => .ok ()) (.heartbeat now r)
    exact hchange hg hsame
  | update now r =>
    obtain ⟨g, hg, hsame⟩ := f.change_take (fun _ => .ok ()) (.update now r)
    exact hchange hg hsame
  | sweepNode now timeout id => exact named_sweepNodes h now timeout [id]
  | chat agents r =>
    obtain ⟨g, hg, hsame⟩ := f.change_chat agents r
    exact hchange hg hsame
  | embeddings agents r =>
    obtain ⟨g, hg, hsame⟩ := f.change_embeddings agents r
    exact hchange hg hsame

/-! ### The jobs in hand -/

/-- The jobs that the loop and the tasks have in hand, as they took them. -/
def inHand (f : Fleet) : List Job :=
  f.processor.loop.job?.toList ++ f.processor.tasks.map (·.job)

/-- The records are what the jobs in hand have become. -/
def UpToDate (f : Fleet) : Prop :=
  ∀ job ∈ f.inHand, ∃ j, f.queue.get? job.id = some j ∧ job.Becomes j

theorem inHand_of_step (h : f.step m = some g) :
    ∀ job ∈ g.inHand, job ∈ f.inHand ∨ f.queue.get? job.id = some job := by
  have htasks : ∀ {g : Fleet} {job : Job}, job ∈ g.inHand → g.processor.loop.job? = none →
      g.processor.tasks = f.processor.tasks → job ∈ f.inHand := by
    intro g job hjob hidle hsame
    rw [inHand, hidle, hsame] at hjob
    exact List.mem_append_right _ hjob
  intro job hjob
  cases stepped_of_step h with
  | loop _ _ hidle hsame => exact .inl (htasks hjob hidle hsame)
  | dequeue _ hdequeue =>
    rcases List.mem_cons.1 hjob with rfl | hjob
    · exact .inr (Queue.get?_of_dequeue hdequeue)
    · exact .inl (List.mem_append_right _ hjob)
  | assign hloop _ =>
    rw [inHand, hloop]
    exact .inl hjob
  | unassigned => exact .inl (htasks hjob rfl rfl)
  | @spawn marked hloop =>
    have hmem : job ∈ f.processor.tasks.map (·.job) ++ [marked] := by
      rw [inHand, List.map_append] at hjob
      exact hjob
    rw [inHand, hloop]
    exact .inl (List.perm_append_comm.mem_iff.1 hmem)
  | cancel =>
    rw [inHand, List.map_map] at hjob
    exact .inl hjob
  | record =>
    rcases List.mem_append.1 hjob with hjob | hjob
    · exact .inl (List.mem_append_left _ hjob)
    · obtain ⟨u, hu, rfl⟩ := List.mem_map.1 hjob
      exact .inl (List.mem_append_right _ (List.mem_map_of_mem (List.mem_of_mem_eraseIdx hu)))
  | @task i t x f' phase ht hstep =>
    rw [inHand, Processor.setTask, (stepsTo_of_stepTask hstep).processor] at hjob
    rcases List.mem_append.1 hjob with hjob | hjob
    · exact .inl (List.mem_append_left _ hjob)
    · obtain ⟨u, hu, rfl⟩ := List.mem_map.1 hjob
      refine .inl (List.mem_append_right _ ?_)
      rcases List.mem_or_eq_of_mem_set hu with hu | rfl
      · exact List.mem_map_of_mem hu
      · exact List.mem_map.2 ⟨t, List.mem_of_getElem? ht, rfl⟩

theorem UpToDate.after (h : f.UpToDate) (e : Event) : (f.after e).UpToDate := by
  have hgrows := f.grows_after e
  have hold : ∀ {job}, job ∈ f.inHand → ∃ j, (f.after e).queue.get? job.id = some j ∧
      job.Becomes j := by
    intro job hjob
    obtain ⟨j, hj, hbecomes⟩ := h job hjob
    obtain ⟨k, hk, hbecomes'⟩ := hgrows _ j hj
    exact ⟨k, hk, hbecomes.trans hbecomes'⟩
  have hsame : (f.after e).processor = f.processor → (f.after e).UpToDate := by
    intro hprocessor job hjob
    rw [inHand, hprocessor] at hjob
    exact hold hjob
  rcases f.after_cases e with ⟨m, -, hstep⟩ | ⟨queue, id, j, hafter, -⟩ | ⟨hwork, -⟩
  · intro job hjob
    rcases inHand_of_step hstep job hjob with hmem | hget
    · exact hold hmem
    · exact hgrows _ job hget
  · exact hsame (by rw [hafter])
  · exact hsame hwork.processor

/-! ### Who has the job -/

theorem mem_tasks_iff {tasks : List Task} (ht : tasks[i]? = some t) :
    u ∈ tasks ↔ u = t ∨ u ∈ tasks.eraseIdx i := by
  obtain ⟨hi, rfl⟩ := List.getElem?_eq_some_iff.1 ht
  rw [← List.mem_cons]
  exact (List.getElem_cons_eraseIdx_perm hi).symm.mem_iff

namespace Owned

theorem alone (ho : f.Owned served cancelled) (ht : f.processor.tasks[i]? = some t)
    (hu : u ∈ f.processor.tasks.eraseIdx i) : u.job.id ≠ t.job.id := by
  have honce := (ho.kept.perm (holdsOf_task _ _ ht)).once
  rw [List.map_cons, List.nodup_cons, holdsOf_ids] at honce
  intro heq
  refine honce.1 (List.mem_append_right _ (List.mem_append_right _ ?_))
  show t.job.id ∈ _
  rw [← heq]
  exact List.mem_map_of_mem hu

theorem not_task (ho : f.Owned served cancelled) (hjob : f.processor.loop.job? = some j)
    (ht : t ∈ f.processor.tasks) : t.job.id ≠ j.id := by
  intro heq
  have hle := ho.places_le j.id
  have hhand : 0 < (f.places j.id).2.1 := by
    rw [places, hjob]
    exact List.count_pos_iff.2 List.mem_cons_self
  have htask : 0 < (f.places j.id).2.2 :=
    List.count_pos_iff.2 (heq ▸ List.mem_map_of_mem ht)
  omega

theorem record_of_task (ho : f.Owned served cancelled) (ht : t ∈ f.processor.tasks) :
    ∃ j, f.queue.get? t.job.id = some j ∧ t.phase.Allows j.status := by
  have hmem : t.hold ∈ f.holds :=
    List.mem_append_right _ (List.mem_append_right _ (List.mem_map_of_mem ht))
  obtain ⟨j, hget, -, hallows⟩ := ho.kept.held _ hmem
  exact ⟨j, hget, hallows⟩

theorem record_of_hand (ho : f.Owned served cancelled) {s : JobStatus}
    (hloop : f.processor.loop.holds = [.ofHand j s]) :
    ∃ k, f.queue.get? j.id = some k ∧ k.status = s := by
  have hmem : .ofHand j s ∈ f.holds := by
    rw [holds, holdsOf, hloop]
    exact List.mem_append_right _ List.mem_cons_self
  obtain ⟨k, hget, -, hstatus⟩ := ho.kept.held _ hmem
  exact ⟨k, hget, hstatus⟩

end Owned

/-! ### One job -/

/-- The record of the job `id` has come as far as its account says. -/
structure Told (f : Fleet) (id : String) (a : Account) : Prop where
  held : ∀ t ∈ f.processor.tasks, t.job.id = id →
    ∃ j, f.queue.get? id = some j ∧ a.Fits j t.phase
  left : (∀ t ∈ f.processor.tasks, t.job.id ≠ id) → a.Rests (f.queue.get? id)

namespace Told

theorem congr (h : f.Told id a) (hget : g.queue.get? id = f.queue.get? id)
    (htasks : ∀ t, t.job.id = id → (t ∈ g.processor.tasks ↔ t ∈ f.processor.tasks)) :
    g.Told id a := by
  refine ⟨fun t ht hid => ?_, fun hnone => ?_⟩
  · rw [hget]
    exact h.held t ((htasks t hid).1 ht) hid
  · rw [hget]
    exact h.left fun t ht hid => hnone t ((htasks t hid).2 ht) hid

theorem cancel (h : f.Told id a) {p : Processor}
    (hp : p.tasks = f.processor.tasks.map fun t => { t with cancelled := true }) :
    ({ f with processor := p } : Fleet).Told id a := by
  refine ⟨fun t ht hid => ?_, fun hnone => h.left fun t ht => ?_⟩
  · rw [hp] at ht
    obtain ⟨u, hu, rfl⟩ := List.mem_map.1 ht
    exact h.held u hu hid
  · refine hnone { t with cancelled := true } ?_
    rw [hp]
    exact List.mem_map_of_mem ht

theorem assign (h : f.Told id a) (ho : f.Owned served cancelled)
    (hloop : f.processor.loop = .holding j) (now : Instant) {p : Processor}
    (hp : p.tasks = f.processor.tasks) :
    ({ f with
      queue := (f.queue.setStatus now j.id .assigned).2, processor := p } : Fleet).Told id a := by
  by_cases hid : id = j.id
  · -- No task has the job, and its status is pending: so it has not been observed yet.
    obtain ⟨k, hget, hpending⟩ := ho.record_of_hand (s := .pending) (by rw [hloop]; rfl)
    have hnone : ∀ t ∈ f.processor.tasks, t.job.id ≠ j.id := fun t ht =>
      ho.not_task (by rw [hloop]; rfl) ht
    have hmove : k.status.canMoveTo .assigned = true := by
      rw [hpending]
      rfl
    have hassigned := (Queue.advance_of_canMoveTo now (f := fun k => k) (fun _ => rfl) hget
      hmove).2.2 j.id
    rw [if_pos rfl] at hassigned
    have hrests := h.left (hid ▸ hnone)
    rw [hid, hget] at hrests
    refine ⟨fun t ht heq => absurd (heq.trans hid) (hnone t (hp ▸ ht)), fun _ => ?_⟩
    obtain ⟨rfl, hwaiting⟩ := hrests.waiting_of_status (.inl hpending)
    rw [hid, Queue.setStatus, hassigned]
    refine .waiting rfl fun l hl => ?_
    obtain rfl := Option.some.inj hl
    exact { hwaiting with status := .inr rfl }
  · exact h.congr (Queue.get?_advance_of_ne hid _ now _ fun _ => rfl) fun t _ => by rw [hp]

theorem spawn (h : f.Told id a) (ho : f.Owned served cancelled)
    (hloop : f.processor.loop = .marked j) {p : Processor} {c : Bool}
    (hp : p.tasks = f.processor.tasks ++ [{ job := j, cancelled := c }]) :
    ({ f with processor := p } : Fleet).Told id a := by
  by_cases hid : j.id = id
  · obtain ⟨k, hget, hassigned⟩ := ho.record_of_hand (s := .assigned) (by rw [hloop]; rfl)
    have hnone : ∀ t ∈ f.processor.tasks, t.job.id ≠ j.id := fun t ht =>
      ho.not_task (by rw [hloop]; rfl) ht
    subst hid
    have hrests := h.left hnone
    rw [hget] at hrests
    obtain ⟨rfl, hwaiting⟩ := hrests.waiting_of_status (.inr hassigned)
    refine ⟨fun t ht heq => ?_, fun hall => absurd rfl (hall { job := j, cancelled := c } ?_)⟩
    · rw [hp] at ht
      rcases List.mem_append.1 ht with ht | ht
      · exact absurd heq (hnone t ht)
      · rw [List.mem_singleton.1 ht]
        exact ⟨k, hget, rfl, hwaiting⟩
    · rw [hp]
      exact List.mem_append_right _ List.mem_cons_self
  · refine h.congr rfl fun t ht => ?_
    rw [hp, List.mem_append, List.mem_singleton]
    refine or_iff_left fun heq => hid ?_
    rw [← ht, heq]

theorem task (h : f.Told id a) (ho : f.Owned served cancelled) (hfresh : f.UpToDate)
    (hnamed : f.registry.Named) (ht : f.processor.tasks[i]? = some t)
    (hstep : f.stepTask t x = some (g, phase)) :
    (g.setTask i { t with phase }).Told id (if t.job.id = id then f.observe t x a else a) := by
  have hsteps := stepsTo_of_stepTask hstep
  have hmem := List.mem_of_getElem? ht
  obtain ⟨hi, -⟩ := List.getElem?_eq_some_iff.1 ht
  have hnew : ∀ u, u ∈ (g.setTask i { t with phase }).processor.tasks ↔
      u = { t with phase } ∨ u ∈ f.processor.tasks.eraseIdx i := fun u => by
    rw [setTask, Processor.setTask, hsteps.processor, ← List.mem_cons]
    exact (List.set_perm_cons_eraseIdx hi _).mem_iff
  by_cases hid : t.job.id = id
  · subst hid
    rw [if_pos rfl]
    obtain ⟨j, hget, hfits⟩ := h.held t hmem rfl
    obtain ⟨j', hget', hbecomes⟩ :=
      hfresh t.job (List.mem_append_right _ (List.mem_map_of_mem hmem))
    obtain rfl : j = j' := Option.some.inj (hget.symm.trans hget')
    have hread := Payload.read_congr hbecomes.kind hbecomes.payload
    obtain ⟨k, hk, hfits'⟩ := hfits.step hget hread.symm hnamed hstep
    -- The other tasks have other jobs, so this is the only phase to look at.
    refine ⟨fun u hu heq => ?_,
      fun hall => absurd rfl (hall { t with phase } ((hnew _).2 (.inl rfl)))⟩
    rcases (hnew u).1 hu with rfl | hu
    · exact ⟨k, hk, hfits'⟩
    · exact absurd heq (ho.alone ht hu)
  · rw [if_neg hid]
    refine h.congr ?_ fun u hu => ?_
    · show g.queue.get? id = f.queue.get? id
      rcases hsteps.queue with ⟨hqueue, -⟩ | ⟨now, payload, node, -, hqueue, -⟩
      · rw [hqueue]
      · rw [hqueue]
        exact Queue.get?_advance_of_ne (Ne.symm hid) _ now _ fun _ => rfl
    · have hne : ∀ {v : Task}, v.job = t.job → u ≠ v := fun hv heq => hid (by rw [← hu, heq, hv])
      rw [hnew, mem_tasks_iff ht, or_iff_right (hne (v := t) rfl)]
      exact or_iff_right (hne rfl)

theorem record (h : f.Told id a) (ho : f.Owned served cancelled) {outcome : Outcome}
    (ht : f.processor.tasks[i]? = some t) (hphase : t.phase = .ending outcome) (now : Instant) :
    (f.dismiss now i t.job.id outcome).Told id a := by
  by_cases hid : t.job.id = id
  · subst hid
    obtain ⟨j, hget, hfits⟩ := h.held t (List.mem_of_getElem? ht) rfl
    rw [hphase] at hfits
    refine ⟨fun u hu heq => absurd heq (ho.alone ht hu), fun _ => ?_⟩
    show a.Rests ((outcome.record f.queue now t.job.id).2.get? t.job.id)
    cases outcome with
    | completed result =>
      obtain ⟨hopen, htells⟩ := hfits
      rw [Outcome.get?_record hget hopen.isTerminal]
      exact .final rfl (htells now)
    | failed fault =>
      obtain ⟨hopen, htells⟩ := hfits
      rw [Outcome.get?_record hget hopen.isTerminal]
      exact .final rfl (htells now)
    | interrupted =>
      obtain ⟨nodeId, hrunning⟩ := hfits
      show a.Rests (f.queue.get? t.job.id)
      rw [hget]
      exact .brokenOff hrunning
  · refine h.congr (outcome.get?_record_of_ne f.queue now (Ne.symm hid)) fun u hu => ?_
    have hne : u ≠ t := fun heq => hid (by rw [← hu, heq])
    rw [mem_tasks_iff ht, or_iff_right hne]
    rfl

theorem step (h : f.Told id a) (ho : f.Owned served cancelled) (hfresh : f.UpToDate)
    (hnamed : f.registry.Named) (hs : f.step m = some g) :
    g.Told id (f.observed id a (.move m)) := by
  have hsame : ∀ {g : Fleet}, (∀ i, g.queue.get? i = f.queue.get? i) →
      g.processor.tasks = f.processor.tasks → g.Told id a := fun hget htasks =>
    h.congr (hget id) fun t _ => by rw [htasks]
  cases stepped_of_step hs with
  | loop hloop _ _ htasks =>
    have hobserved : f.observed id a (.move m) = a := by
      cases m with
      | task i x => exact absurd rfl (hloop i x)
      | _ => rfl
    rw [hobserved]
    exact hsame (fun _ => rfl) htasks
  | dequeue _ hdequeue =>
    refine hsame (fun i => ?_) rfl
    rw [← Queue.get?_dequeue f.queue, hdequeue]
  | @assign j queue now hloop hstatus =>
    have hassigned := fun p hp => h.assign ho hloop now (p := p) hp
    rw [hstatus] at hassigned
    exact hassigned _ rfl
  | @unassigned j queue now fault hloop hstatus =>
    have hok := (ho.assign hloop now).1
    rw [hstatus] at hok
    cases hok
  | spawn hloop => exact h.spawn ho hloop rfl
  | cancel => exact h.cancel rfl
  | @record i t now outcome ht hphase =>
    have hobserve : f.observe t (.record now) a = a := rfl
    simp only [observed, ht]
    rw [hobserve, ite_self]
    exact h.record ho ht hphase now
  | task ht hstep =>
    simp only [observed, ht]
    exact h.task ho hfresh hnamed ht hstep

end Told

/-- A submission leaves a record as it is, or the record is that of a new job. -/
theorem get?_submitJob (f : Fleet) (now : Instant) (r : Submission) (id : String) :
    (f.submitJob now r).2.queue.get? id = f.queue.get? id ∨
      f.queue.get? id = none ∧ ∃ k, (f.submitJob now r).2.queue.get? id = some k ∧ k.IsWaiting := by
  simp only [submitJob]
  split
  · exact .inl rfl
  · split
    · exact .inl rfl
    · rename_i kind _
      have hqueue : ∀ {result queue}, f.queue.enqueue now (.submitted r.jobId kind r.payload now) =
          (result, queue) → queue.get? id = f.queue.get? id ∨
            f.queue.get? id = none ∧ ∃ k, queue.get? id = some k ∧ k.IsWaiting := by
        intro result queue henqueue
        cases hget : f.queue.get? (Job.submitted r.jobId kind r.payload now).id with
        | some k =>
          rw [Queue.enqueue_of_some now hget] at henqueue
          cases henqueue
          exact .inl rfl
        | none =>
          have hnew := (Queue.enqueue_of_none now hget).2.2 id
          rw [henqueue] at hnew
          by_cases hid : id = (Job.submitted r.jobId kind r.payload now).id
          · rw [if_pos hid] at hnew
            exact .inr ⟨hid ▸ hget, _, hnew, .inl rfl, rfl, rfl, rfl⟩
          · rw [if_neg hid] at hnew
            exact .inl hnew
      split
      · rename_i henqueue
        exact hqueue henqueue
      · rename_i henqueue
        exact hqueue henqueue

theorem processor_submitJob (f : Fleet) (now : Instant) (r : Submission) :
    (f.submitJob now r).2.processor = f.processor := by
  rcases f.submitJob_cases now r with ⟨refusal, h⟩ | ⟨receipt, queue, j, h, -⟩ <;> rw [h]

theorem Told.submit (h : f.Told id a) (now : Instant) (r : Submission) :
    (f.submitJob now r).2.Told id a := by
  have hprocessor := f.processor_submitJob now r
  rcases f.get?_submitJob now r id with hsame | ⟨hnone, k, hnew, hwaiting⟩
  · exact h.congr hsame fun t _ => by rw [hprocessor]
  · have hidle : ∀ t ∈ f.processor.tasks, t.job.id ≠ id := by
      intro t ht hid
      obtain ⟨j, hj, -⟩ := h.held t ht hid
      rw [hnone] at hj
      cases hj
    have hrests := h.left hidle
    rw [hnone] at hrests
    refine ⟨fun t ht hid => absurd hid (hidle t (hprocessor ▸ ht)), fun _ => ?_⟩
    rw [hnew]
    cases hrests with
    | waiting ha _ =>
      refine .waiting ha fun l hl => ?_
      obtain rfl := Option.some.inj hl
      exact hwaiting

theorem observed_of_step_none (h : f.step m = none) : f.observed id a (.move m) = a := by
  cases m
  case task i x =>
    simp only [observed]
    cases ht : f.processor.tasks[i]? with
    | none => rfl
    | some t =>
      have hnone : f.stepTask t x = none := by
        cases hstep : f.stepTask t x with
        | none => rfl
        | some stepped => rw [step_of_stepTask ht hstep] at h; cases h
      have hobserve : f.observe t x a = a := by
        simp only [observe, hnone]
      simp only [hobserve, ite_self]
  all_goals rfl

theorem Told.after (h : f.Told id a) (ho : f.Owned served cancelled) (hfresh : f.UpToDate)
    (hnamed : f.registry.Named) (e : Event) : (f.after e).Told id (f.observed id a e) := by
  have hwork : ∀ {g : Fleet}, f.SameWork g → g.Told id a := fun hsame =>
    h.congr (by rw [hsame.queue]) fun t _ => by rw [hsame.processor]
  cases e with
  | move m =>
    cases hstep : f.step m with
    | none =>
      rw [observed_of_step_none hstep, Fleet.after, hstep]
      exact h
    | some g =>
      rw [Fleet.after, hstep]
      exact h.step ho hfresh hnamed hstep
  | submit now r => exact h.submit now r
  | register now r => exact hwork (.registerNode f now r)
  | heartbeat now r => exact hwork (.heartbeat f now r)
  | update now r => exact hwork (.updateNode f now r)
  | sweepNode now timeout id => exact hwork (.sweepNode f now timeout id)
  | chat agents r => exact hwork (.chat f agents r)
  | embeddings agents r => exact hwork (.embeddings f agents r)

theorem Told.tells (h : f.Told id a) (hget : f.queue.get? id = some k)
    (hfinal : k.status.isTerminal = true) : a.Tells k := by
  by_cases htask : ∃ t ∈ f.processor.tasks, t.job.id = id
  · obtain ⟨t, ht, hid⟩ := htask
    obtain ⟨j, hj, hfits⟩ := h.held t ht hid
    obtain rfl := Option.some.inj (hj.symm.trans hget)
    rw [hfits.isOpen.isTerminal] at hfinal
    cases hfinal
  · have hrests := h.left fun t ht hid => htask ⟨t, ht, hid⟩
    rw [hget] at hrests
    cases hrests with
    | waiting _ hwaiting =>
      have hopen : k.IsOpen := .inl (hwaiting k rfl)
      rw [hopen.isTerminal] at hfinal
      cases hfinal
    | final _ htells => exact htells
    | brokenOff hrunning =>
      rw [hrunning.status] at hfinal
      cases hfinal

theorem Told.isFilled (h : f.Told id a) (hget : f.queue.get? id = some k) : k.IsFilled := by
  have hopen : ∀ {j : Job}, j.IsOpen → j.IsFilled := fun hopen =>
    hopen.elim Job.IsWaiting.isFilled fun ⟨_, hrunning⟩ => hrunning.isFilled
  by_cases htask : ∃ t ∈ f.processor.tasks, t.job.id = id
  · obtain ⟨t, ht, hid⟩ := htask
    obtain ⟨j, hj, hfits⟩ := h.held t ht hid
    obtain rfl := Option.some.inj (hj.symm.trans hget)
    exact hopen hfits.isOpen
  · have hrests := h.left fun t ht hid => htask ⟨t, ht, hid⟩
    rw [hget] at hrests
    cases hrests with
    | waiting _ hwaiting => exact (hwaiting k rfl).isFilled
    | final _ htells => exact htells.isFilled
    | brokenOff hrunning => exact hrunning.isFilled

end Fleet

end InferenceFleet
