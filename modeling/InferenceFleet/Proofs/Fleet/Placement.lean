import InferenceFleet.Proofs.Fleet.Ownership

/-!
# Where the jobs are

In every life of a fleet each accepted job is in exactly one situation (`Life.IsIn`): it waits, it
is in the hand of the loop, a task has it, its record is final, or a shutdown broke it off. The
invariant is `Fleet.Owned`, together with what the history of the life says of the queue
(`Life.Sound`).
-/

namespace InferenceFleet

/-! ### What the events do to the records -/

/-- `q'` has the jobs of `q`, with records that may have changed. -/
structure Queue.Updates (q q' : Queue) : Prop where
  grows : q.Grows q'
  recorded : ∀ id k, q'.get? id = some k → ∃ j, q.get? id = some j

namespace Queue.Updates

theorem refl (q : Queue) : q.Updates q := ⟨.refl q, fun _ k hk => ⟨k, hk⟩⟩

theorem dequeue {q q' : Queue} {j : Option Job} (h : q.dequeue = (j, q')) : q.Updates q' := by
  obtain rfl : q.dequeue.2 = q' := by rw [h]
  exact ⟨q.grows_dequeue, fun _ k hk => ⟨k, hk⟩⟩

theorem advance (q : Queue) (now : Instant) (id : String) (next : JobStatus) {f : Job → Job}
    (hf : KeepsJob f) : q.Updates (q.advance now id next f).2 := by
  refine ⟨q.grows_advance now id next hf, fun i k hk => ?_⟩
  rcases q.advance_cases now id next hf.id with ⟨j, hj, -, -, hget⟩ | ⟨fault, hfault⟩
  · rw [hget] at hk
    split at hk
    · rename_i hi
      exact ⟨j, hi ▸ hj⟩
    · exact ⟨k, hk⟩
  · rw [hfault] at hk
    exact ⟨k, hk⟩

end Queue.Updates

theorem Outcome.record_updates (o : Outcome) (q : Queue) (now : Instant) (id : String) :
    q.Updates (o.record q now id).2 := by
  cases o with
  | completed result => exact .advance q now id _ (.complete result)
  | failed fault => exact .advance q now id _ (.fail fault.message)
  | interrupted => exact .refl q

namespace Fleet
variable {f g : Fleet}

theorem StepsTo.updates {t : Task} {phase : Phase} (h : f.StepsTo t g phase) :
    f.queue.Updates g.queue := by
  rcases h.queue with ⟨hqueue, -⟩ | ⟨now, payload, node, -, hqueue, -⟩
  · rw [hqueue]
    exact .refl _
  · rw [hqueue]
    exact .advance _ now _ _ (.assign node.id)

theorem updates_of_step {m : Move} (h : f.step m = some g) : f.queue.Updates g.queue := by
  cases stepped_of_step h with
  | loop => exact .refl _
  | dequeue _ hdequeue => exact .dequeue hdequeue
  | @assign job queue now _ hstatus | @unassigned job queue now _ _ hstatus =>
    have hupdates : f.queue.Updates (f.queue.setStatus now job.id .assigned).2 :=
      .advance _ now _ _ .refl
    rw [hstatus] at hupdates
    exact hupdates
  | spawn => exact .refl _
  | cancel => exact .refl _
  | record => exact Outcome.record_updates ..
  | task _ hstep => exact (stepsTo_of_stepTask hstep).updates

/-- A submission is refused and changes nothing, or its job is new and waits last. -/
theorem submitJob_cases (f : Fleet) (now : Instant) (r : Submission) :
    (∃ refusal, f.submitJob now r = (.error refusal, f)) ∨
      ∃ receipt queue j, f.submitJob now r = (.ok receipt, { f with queue }) ∧
        f.queue.get? receipt.jobId = none ∧
        queue.pending = f.queue.pending ++ [receipt.jobId] ∧
        (∀ i, queue.get? i = if i = receipt.jobId then some j else f.queue.get? i) ∧
        j.status = .pending := by
  unfold submitJob
  split
  · exact .inl ⟨_, rfl⟩
  · split
    · exact .inl ⟨_, rfl⟩
    · rename_i kind _
      dsimp only
      cases hget : f.queue.get? (Job.submitted r.jobId kind r.payload now).id with
      | some k =>
        have hrefused := Queue.enqueue_of_some now hget
        split <;> rename_i hqueue <;> rw [hrefused] at hqueue <;> cases hqueue
        exact .inl ⟨_, rfl⟩
      | none =>
        obtain ⟨hok, hpending, hget'⟩ := Queue.enqueue_of_none now hget
        split
        · rename_i queue hqueue
          rw [hqueue] at hpending hget'
          exact .inr ⟨_, queue, _, rfl, hget, hpending, hget', rfl⟩
        · rename_i hqueue
          rw [hqueue] at hok
          cases hok

/-- An event is a step of the processor, or an accepted submission, or leaves the work alone. -/
theorem after_cases (f : Fleet) (e : Event) :
    (∃ m, e = .move m ∧ f.step m = some (f.after e)) ∨
      (∃ queue id j, f.after e = { f with queue } ∧ f.accepted? e = some id ∧
        f.queue.get? id = none ∧ queue.pending = f.queue.pending ++ [id] ∧
        (∀ i, queue.get? i = if i = id then some j else f.queue.get? i) ∧ j.status = .pending) ∨
      f.SameWork (f.after e) ∧ f.accepted? e = none ∧ f.newlyServed e = [] := by
  have hcallers : ∀ e, f.worker? e = none → f.newlyServed e = [] := by
    intro e he
    rw [newlyServed, he]
    exact List.filterMap_eq_nil_iff.2 fun _ _ => rfl
  cases e with
  | move m =>
    cases hstep : f.step m with
    | some g => exact .inl ⟨m, rfl, by rw [after, hstep]; rfl⟩
    | none =>
      have hafter : f.after (.move m) = f := by rw [after, hstep]; rfl
      refine .inr (.inr ⟨by rw [hafter]; exact .refl f, rfl, ?_⟩)
      rw [newlyServed, newlyAsked, hafter, List.drop_length, List.filterMap_nil]
  | submit now r =>
    rcases f.submitJob_cases now r with ⟨refusal, h⟩ | ⟨receipt, queue, j, h, hspec⟩
    · exact .inr (.inr ⟨by rw [after, h]; exact .refl f, by rw [accepted?, h], hcallers _ rfl⟩)
    · exact .inr (.inl ⟨queue, receipt.jobId, j, by rw [after, h], by rw [accepted?, h], hspec⟩)
  | register now r => exact .inr (.inr ⟨.registerNode f now r, rfl, hcallers _ rfl⟩)
  | heartbeat now r => exact .inr (.inr ⟨.heartbeat f now r, rfl, hcallers _ rfl⟩)
  | update now r => exact .inr (.inr ⟨.updateNode f now r, rfl, hcallers _ rfl⟩)
  | sweepNode now timeout id => exact .inr (.inr ⟨.sweepNode f now timeout id, rfl, hcallers _ rfl⟩)
  | chat agents r => exact .inr (.inr ⟨.chat f agents r, rfl, hcallers _ rfl⟩)
  | embeddings agents r => exact .inr (.inr ⟨.embeddings f agents r, rfl, hcallers _ rfl⟩)

theorem grows_after (f : Fleet) (e : Event) : f.queue.Grows (f.after e).queue := by
  rcases f.after_cases e with
    ⟨m, -, hstep⟩ | ⟨queue, id, j, hafter, -, hnew, -, hget, -⟩ | ⟨hwork, -⟩
  · exact (updates_of_step hstep).grows
  · rw [hafter]
    intro i k hk
    have hne : i ≠ id := fun hi => by rw [hi, hnew] at hk; cases hk
    exact ⟨k, by rw [hget, if_neg hne, hk], .refl k⟩
  · rw [hwork.queue]
    exact .refl _

theorem newlyAsked_of_append {e : Event} {requests : List Asked}
    (h : (f.after e).asked = f.asked ++ requests) : f.newlyAsked e = requests := by
  rw [newlyAsked, h, List.drop_left]

/-- Whatever happens, the jobs keep their holders. -/
theorem Owned.after {served : List String} {cancelled : Bool} (ho : f.Owned served cancelled)
    (e : Event) : (f.after e).asked = f.asked ++ f.newlyAsked e ∧
      (f.after e).Owned (served ++ f.newlyServed e) (cancelled || e.isCancel) := by
  rcases f.after_cases e with ⟨m, rfl, hstep⟩ |
    ⟨queue, id, j, hafter, haccepted, hnew, hpending, hget, hj⟩ | ⟨hwork, -, hserved⟩
  · obtain ⟨requests, hasked, howned⟩ := ho.step hstep
    rw [newlyServed, newlyAsked_of_append hasked]
    exact ⟨hasked, howned⟩
  · have hasked : (f.after e).asked = f.asked ++ [] := by rw [hafter, List.append_nil]
    rw [newlyServed, newlyAsked_of_append hasked, List.filterMap_nil, List.append_nil served,
      hafter]
    exact ⟨(List.append_nil _).symm,
      (ho.submit hnew hpending hget hj).mono fun h => by rw [h, Bool.true_or]⟩
  · refine ⟨(List.prefix_iff_eq_append.1 hwork.asked).symm, ?_⟩
    rw [hserved, List.append_nil]
    exact (ho.sameWork hwork).mono fun h => by rw [h, Bool.true_or]

/-! ### Where a job is -/

/-- How often the id is in the line of the queue, in the hand of the loop, and with a task. -/
def places (f : Fleet) (id : String) : Nat × Nat × Nat :=
  (f.queue.pending.count id, (f.processor.loop.job?.toList.map (·.id)).count id,
    (f.processor.tasks.map (·.job.id)).count id)

end Fleet

/-- Where a job can be. -/
inductive Situation where
  | waiting
  | inHand
  | owned
  | final
  | brokenOff
  deriving DecidableEq

namespace Situation

def places : Situation → Nat × Nat × Nat
  | .waiting => (1, 0, 0)
  | .inHand => (0, 1, 0)
  | .owned => (0, 0, 1)
  | .final | .brokenOff => (0, 0, 0)

/-- The records that a job in the situation can have. -/
def Allows (cancelled : Bool) (j : Job) : Situation → Prop
  | .waiting => j.status = .pending
  | .inHand => j.status = .pending ∨ j.status = .assigned
  | .owned => j.status = .assigned ∨ j.status = .running
  | .final => j.status.isTerminal = true
  | .brokenOff => j.status = .running ∧ j.kind = .chatCompletion ∧ cancelled = true

end Situation

namespace Fleet
variable {f : Fleet} {served : List String} {cancelled : Bool} {id : String} {j : Job}

theorem count_holds (f : Fleet) (id : String) : (f.holds.map Hold.id).count id =
    (f.places id).1 + ((f.places id).2.1 + (f.places id).2.2) := by
  rw [holds, holdsOf_ids, List.count_append, List.count_append]
  rfl

theorem Owned.places_le (ho : f.Owned served cancelled) (id : String) :
    (f.places id).1 + ((f.places id).2.1 + (f.places id).2.2) ≤ 1 := by
  rw [← f.count_holds]
  exact List.nodup_iff_count.1 ho.kept.once id

theorem places_eq {f : Fleet} {id : String} {n m k : Nat} (hn : (f.places id).1 = n)
    (hm : (f.places id).2.1 = m) (hk : (f.places id).2.2 = k) : f.places id = (n, m, k) := by
  rw [← hn, ← hm, ← hk]

/-- Every recorded job is somewhere, with a record that fits. -/
theorem Owned.situation (ho : f.Owned served cancelled) (hget : f.queue.get? id = some j) :
    ∃ s : Situation, f.places id = s.places ∧ s.Allows cancelled j := by
  -- One hold at most has the id, so the place of that hold settles the other two.
  have hle := ho.places_le id
  by_cases hheld : id ∈ f.holds.map Hold.id
  · obtain ⟨h, hmem, rfl⟩ := List.mem_map.1 hheld
    obtain ⟨k, hk, hallows⟩ := ho.kept.held h hmem
    obtain rfl : k = j := Option.some.inj (hk.symm.trans hget)
    rcases List.mem_append.1 hmem with hmem | hmem
    · obtain ⟨i, hi, rfl⟩ := List.mem_map.1 hmem
      have hcount : 0 < (f.places (Hold.ofWaiting i).id).1 := List.count_pos_iff.2 hi
      exact ⟨.waiting, places_eq (by omega) (by omega) (by omega), hallows⟩
    · rcases List.mem_append.1 hmem with hmem | hmem
      · have hids : h.id ∈ f.processor.loop.job?.toList.map (·.id) := by
          rw [← Loop.holds_ids]
          exact List.mem_map_of_mem hmem
        have hcount : 0 < (f.places h.id).2.1 := List.count_pos_iff.2 hids
        refine ⟨.inHand, places_eq (by omega) (by omega) (by omega), ?_⟩
        cases hloop : f.processor.loop <;> rw [hloop] at hmem
        case holding job =>
          obtain rfl := List.mem_singleton.1 hmem
          exact .inl hallows.2
        case marked job =>
          obtain rfl := List.mem_singleton.1 hmem
          exact .inr hallows.2
        all_goals cases hmem
      · obtain ⟨t, ht, rfl⟩ := List.mem_map.1 hmem
        have hids : t.job.id ∈ f.processor.tasks.map (·.job.id) := List.mem_map_of_mem ht
        have hcount : 0 < (f.places t.hold.id).2.2 := List.count_pos_iff.2 hids
        exact ⟨.owned, places_eq (by omega) (by omega) (by omega), hallows.2.assigned_or_running⟩
  · have hcount := List.count_eq_zero.2 hheld
    rw [f.count_holds] at hcount
    have hplaces : f.places id = (0, 0, 0) := places_eq (by omega) (by omega) (by omega)
    rcases ho.kept.left id j hget hheld with hfinal | hbroken
    · exact ⟨.final, hplaces, hfinal⟩
    · exact ⟨.brokenOff, hplaces, hbroken⟩

end Fleet

namespace Life

open Fleet (Event)

variable {l : Life}

/-- The job, whose record is `j`, is in the situation. -/
def IsIn (l : Life) (j : Job) (s : Situation) : Prop :=
  l.fleet.places j.id = s.places ∧ s.Allows l.cancelled j

theorem IsIn.unique {j : Job} {s s' : Situation} (h : l.IsIn j s) (h' : l.IsIn j s') : s = s' := by
  obtain ⟨hplaces, hallows⟩ := h
  obtain ⟨hplaces', hallows'⟩ := h'
  rw [hplaces] at hplaces'
  cases s <;> cases s' <;> first | rfl | cases hplaces'
  · have hfinal : j.status.isTerminal = true := hallows
    rw [hallows'.1] at hfinal
    cases hfinal
  · have hfinal : j.status.isTerminal = true := hallows'
    rw [hallows.1] at hfinal
    cases hfinal

/-- The history of the life fits the fleet. -/
structure Sound (l : Life) : Prop where
  owned : l.fleet.Owned (l.requests.filterMap Prod.fst) l.cancelled
  accepted : ∀ id, id ∈ l.accepted ↔ ∃ j, l.fleet.queue.get? id = some j
  accepted_once : l.accepted.Nodup
  requests : l.requests.map Prod.snd = l.fleet.asked

namespace Sound

theorem start (limit : Nat) : (Life.start limit).Sound where
  owned := .ofLimit limit
  accepted id := ⟨nofun, fun ⟨_, h⟩ => by cases h⟩
  accepted_once := List.nodup_nil
  requests := rfl

theorem accepted_after (h : l.Sound) (e : Event) (id : String) :
    id ∈ (l.after e).accepted ↔ ∃ j, (l.after e).fleet.queue.get? id = some j := by
  show id ∈ l.accepted ++ _ ↔ ∃ j, (l.fleet.after e).queue.get? id = some j
  rw [List.mem_append, h.accepted id, Option.mem_toList]
  rcases l.fleet.after_cases e with ⟨m, rfl, hstep⟩ |
    ⟨queue, new, j, hafter, haccepted, -, -, hget, -⟩ | ⟨hwork, hrefused, -⟩
  · obtain ⟨hgrows, hrecorded⟩ := Fleet.updates_of_step hstep
    refine ⟨fun hid => ?_, fun ⟨k, hk⟩ => .inl (hrecorded id k hk)⟩
    rcases hid with ⟨k, hk⟩ | hid
    · obtain ⟨k', hk', -⟩ := hgrows id k hk
      exact ⟨k', hk'⟩
    · cases hid
  · rw [hafter, haccepted, hget]
    by_cases hid : id = new
    · simp [hid]
    · have hne : ¬ new = id := fun h => hid h.symm
      simp [hid, hne]
  · rw [hwork.queue, hrefused]
    simp

theorem accepted_once_after (h : l.Sound) (e : Event) : (l.after e).accepted.Nodup := by
  show (l.accepted ++ _).Nodup
  cases haccepted : l.fleet.accepted? e with
  | none =>
    rw [Option.toList_none, List.append_nil]
    exact h.accepted_once
  | some new =>
    have hnew : new ∉ l.accepted := by
      rw [h.accepted new]
      rintro ⟨j, hj⟩
      rcases l.fleet.after_cases e with ⟨m, rfl, -⟩ |
        ⟨queue, id, k, -, haccepted', hnew, -⟩ | ⟨-, hrefused, -⟩
      · cases haccepted
      · rw [haccepted] at haccepted'
        cases haccepted'
        rw [hj] at hnew
        cases hnew
      · rw [haccepted] at hrefused
        cases hrefused
    exact (List.perm_append_singleton new _).nodup_iff.2
      (List.nodup_cons.2 ⟨hnew, h.accepted_once⟩)

theorem after (h : l.Sound) (e : Event) : (l.after e).Sound := by
  obtain ⟨hasked, howned⟩ := h.owned.after e
  have hserved : (l.after e).requests.filterMap Prod.fst =
      l.requests.filterMap Prod.fst ++ l.fleet.newlyServed e := by
    rw [Life.after, List.filterMap_append, List.filterMap_map]
    rfl
  refine ⟨hserved ▸ howned, h.accepted_after e, h.accepted_once_after e, ?_⟩
  rw [Life.after, List.map_append, h.requests, List.map_map, hasked]
  exact congrArg _ (List.map_id _)

theorem run (h : l.Sound) (events : List Event) : (l.run events).Sound := by
  induction events generalizing l with
  | nil => exact h
  | cons e events ih => exact ih (h.after e)

end Sound

theorem grows_run (l : Life) (events : List Event) :
    l.fleet.queue.Grows (l.run events).fleet.queue := by
  induction events generalizing l with
  | nil => exact .refl _
  | cons e events ih => exact (l.fleet.grows_after e).trans (ih (l.after e))

/-- In every life of a fleet, however its steps are mixed: no job is accepted twice, and a job has a
record from its acceptance on. Each is in exactly one situation, and once its record is final it
stays as it is. Agents are asked to serve a job once at most, the longest waiting job is the one
that the loop takes, and every change of a record that the processor asks for succeeds. -/
theorem no_job_lost (limit : Nat) (events more : List Event) :
    let l := (start limit).run events
    l.accepted.Nodup ∧
      (∀ id, id ∈ l.accepted ↔ ∃ j, l.fleet.queue.get? id = some j) ∧
      (∀ id j, l.fleet.queue.get? id = some j →
        (∃! s, l.IsIn j s) ∧
          (j.status.isTerminal = true → (l.run more).fleet.queue.get? id = some j)) ∧
      l.requests.map Prod.snd = l.fleet.asked ∧
      (l.requests.filterMap Prod.fst).Nodup ∧
      (∀ id, l.fleet.queue.pending.head? = some id →
        ∃ j, l.fleet.queue.dequeue.1 = some j ∧ j.id = id) ∧
      ∀ m r, l.fleet.update? m = some r → r = .ok () := by
  intro l
  have hsound : l.Sound := (Sound.start limit).run events
  refine ⟨hsound.accepted_once, hsound.accepted, ?_, hsound.requests, hsound.owned.kept.served_once,
    ?_, fun m r => hsound.owned.update?_ok⟩
  · intro id j hget
    have hid := Queue.id_of_get? hget
    obtain ⟨s, hs⟩ := hsound.owned.situation hget
    rw [← hid] at hs
    refine ⟨⟨s, hs, fun s' hs' => IsIn.unique hs' hs⟩, fun hfinal => ?_⟩
    obtain ⟨k, hk, hbecomes⟩ := l.grows_run more id j hget
    rw [hk, hbecomes.frozen hfinal]
  · intro id hhead
    obtain ⟨rest, hpending⟩ := List.head?_eq_some_iff.1 hhead
    have hmem : id ∈ l.fleet.queue.pending := hpending ▸ List.mem_cons_self
    obtain ⟨j, hget, -⟩ := hsound.owned.recorded_of_pending hmem
    refine ⟨j, ?_, Queue.id_of_get? hget⟩
    rw [Queue.dequeue, hpending, Queue.firstRecorded, hget]

/-- A chat job that is taken before a shutdown and started after it. -/
theorem no_job_lost_cancelled :
    let t : Instant := .ofNanos 0
    let submitted : List Event := [.submit t ⟨"a", "chat_completion", "[]"⟩]
    let taken : List Event := submitted ++ [.move .start, .move .acquire, .move .dequeue]
    let spawned : List Event := taken ++ [.move (.assign t), .move .cancel, .move .spawn]
    let l := (start 1).run spawned
    (∃ j, ((start 1).run submitted).fleet.queue.dequeue.1 = some j ∧ j.id = "a") ∧
      (∃ r, ((start 1).run taken).fleet.update? (.assign t) = some r ∧ r = .ok ()) ∧
      l.accepted = ["a"] ∧
      (l.fleet.queue.get? "a").map (fun j => (j.status, l.fleet.places j.id)) =
        some (.assigned, (0, 0, 1)) ∧
      ∃ j, l.fleet.queue.get? "a" = some j ∧ ∃! s, l.IsIn j s := by
  intro t submitted taken spawned l
  obtain ⟨-, -, -, -, -, hfirst, -⟩ := no_job_lost 1 submitted []
  obtain ⟨-, -, -, -, -, -, hupdates⟩ := no_job_lost 1 taken []
  obtain ⟨-, hrecorded, hplaced, -⟩ := no_job_lost 1 spawned []
  have haccepted : l.accepted = ["a"] := rfl
  obtain ⟨j, hget⟩ := (hrecorded "a").1 (by rw [haccepted]; exact List.mem_singleton_self "a")
  exact ⟨hfirst "a" rfl, ⟨_, rfl, hupdates (.assign t) _ rfl⟩, haccepted, rfl, j, hget,
    (hplaced "a" j hget).1⟩

end Life

end InferenceFleet
