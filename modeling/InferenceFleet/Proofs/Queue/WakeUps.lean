import InferenceFleet.Proofs.Queue.WaitingRoom

/-!
# No job waits while consumers sleep

As long as a consumer waits that is not notified, there are at least as many on the way to the queue
as jobs in it: producers that have yet to notify, consumers that are notified, and consumers that a
notification has brought to look (`WaitingRoom.Enough`). A notification moves from a producer to a
consumer, from a consumer that waits to one that looks, and from one that goes away to the next in
the line; it is used up by a look, which takes a job or finds none.

The one way to lose it is to break a consumer off in front of the lock of the queue, when a
notification has brought it there and it has not looked: it has nothing left to pass on. Such
consumers count too (`unheeded`), one job each. Apart from them, a job does not stay in the queue
while consumers sleep and nobody is on the way (`someone_on_the_way`); with one of them it can
(`lost_in_front_of_lock`).
-/

namespace InferenceFleet

namespace Queue
variable {q q' : Queue} {job : Job}

theorem length_firstRecorded (q : Queue) (ids : List String) :
    (q.firstRecorded ids).2.length + (q.firstRecorded ids).1.toList.length ≤ ids.length ∧
      ((q.firstRecorded ids).1 = none → (q.firstRecorded ids).2 = []) := by
  induction ids with
  | nil => exact ⟨Nat.le_refl _, fun _ => rfl⟩
  | cons id ids ih =>
    unfold firstRecorded
    split
    · exact ⟨Nat.le_refl _, nofun⟩
    · exact ⟨Nat.le_succ_of_le ih.1, ih.2⟩

theorem length_pending_of_enqueue {now : Instant} (h : q.enqueue now job = (.ok (), q')) :
    q'.pending.length = q.pending.length + 1 := by
  cases hget : q.get? job.id with
  | some k => rw [enqueue_of_some now hget] at h; cases h
  | none =>
    have hpending := congrArg List.length (enqueue_of_none now hget).2.1
    rwa [h, List.length_append, List.length_singleton] at hpending

theorem eq_of_enqueue_error {now : Instant} {fault : QueueFault}
    (h : q.enqueue now job = (.error fault, q')) : q' = q := by
  cases hget : q.get? job.id with
  | some k => rw [enqueue_of_some now hget] at h; exact (congrArg Prod.snd h).symm
  | none => have hok := (enqueue_of_none now hget).1; rw [h] at hok; cases hok

theorem length_pending_of_dequeue (h : q.dequeue = (some job, q')) :
    q'.pending.length + 1 ≤ q.pending.length := by
  obtain ⟨hjob, rfl⟩ := Prod.mk.inj h
  have hlength := (q.length_firstRecorded q.pending).1
  rw [hjob] at hlength
  exact hlength

theorem pending_of_dequeue_none (h : q.dequeue = (none, q')) : q'.pending = [] := by
  obtain ⟨hnone, rfl⟩ := Prod.mk.inj h
  exact (q.length_firstRecorded q.pending).2 hnone

theorem length_pending_advance (q : Queue) (now : Instant) (id : String) (next : JobStatus)
    {f : Job → Job} (hf : ∀ j, (f j).id = j.id) :
    (q.advance now id next f).2.pending.length ≤ q.pending.length :=
  Nat.le_of_eq (congrArg List.length (q.advance_keeps now id next hf).1)

/-- Only a submission makes the line longer. -/
theorem length_pending_call {c : Call} (hc : ∀ now job, c ≠ .enqueue now job) :
    (q.call c).2.pending.length ≤ q.pending.length := by
  cases c with
  | enqueue now job => exact absurd rfl (hc now job)
  | dequeue => exact Nat.le_of_add_right_le (q.length_firstRecorded q.pending).1
  | setStatus now id next => exact q.length_pending_advance now id next fun _ => rfl
  | assign now id next nodeId => exact q.length_pending_advance now id next fun _ => rfl
  | complete now id result => exact q.length_pending_advance now id .completed fun _ => rfl
  | fail now id message => exact q.length_pending_advance now id .failed fun _ => rfl

end Queue

namespace WaitingRoom
variable {r r' : WaitingRoom} {i j n k : Nat} {stage goal : Stage} {t : Ticket} {a : Action}

/-! ### Who stands in the line -/

/-- The consumer is registered and has not been notified. -/
def IsWaiting (r : WaitingRoom) (i : Nat) : Prop :=
  ∃ stage, r.IsAt i stage ∧ stage.ticket? = some .waiting

theorem isWaiting_move (h : r.IsAt i stage) : (r.move i goal).IsWaiting j ↔
    j = i ∧ goal.ticket? = some .waiting ∨ j ≠ i ∧ r.IsWaiting j := by
  unfold IsWaiting
  simp only [isAt_move h]
  constructor
  · rintro ⟨stage', ⟨rfl, rfl⟩ | ⟨hj, hat⟩, hwaiting⟩
    · exact .inl ⟨rfl, hwaiting⟩
    · exact .inr ⟨hj, stage', hat, hwaiting⟩
  · rintro (⟨rfl, hwaiting⟩ | ⟨hj, stage', hat, hwaiting⟩)
    · exact ⟨goal, .inl ⟨rfl, rfl⟩, hwaiting⟩
    · exact ⟨stage', .inr ⟨hj, hat⟩, hwaiting⟩

theorem IsAt.isWaiting_iff (h : r.IsAt i stage) :
    r.IsWaiting i ↔ stage.ticket? = some .waiting := by
  constructor
  · rintro ⟨stage', hat, hwaiting⟩
    rwa [h.unique hat] at hwaiting
  · exact fun hwaiting => ⟨stage, h, hwaiting⟩

theorem Stage.ticket?_notify (h : stage.ticket? ≠ none) :
    stage.notify.ticket? = some .notified := by
  cases stage with
  | checking | parked | leaving => rfl
  | arrived | served | gone => exact absurd rfl h

/-- The line is that of the consumers that are registered and have not been notified. -/
structure Registered (r : WaitingRoom) : Prop where
  nodup : r.waiters.Nodup
  mem_iff : ∀ i, i ∈ r.waiters ↔ r.IsWaiting i

namespace Registered

theorem start : Registered {} where
  nodup := .nil
  mem_iff i := ⟨nofun, fun ⟨stage, hat, _⟩ => by cases hat⟩

theorem congr (h : r.Registered) (hwaiters : r'.waiters = r.waiters)
    (hconsumers : r'.consumers = r.consumers) : r'.Registered where
  nodup := hwaiters ▸ h.nodup
  mem_iff i := by
    unfold IsWaiting IsAt
    rw [hwaiters, hconsumers]
    exact h.mem_iff i

theorem move (h : r.Registered) (hi : r.IsAt i stage)
    (hsame : goal.ticket? = some .waiting ↔ stage.ticket? = some .waiting) :
    (r.move i goal).Registered where
  nodup := h.nodup
  mem_iff j := by
    show j ∈ r.waiters ↔ _
    rw [isWaiting_move hi, hsame, ← hi.isWaiting_iff, h.mem_iff]
    by_cases hj : j = i <;> simp [hj]

/-- A consumer that no longer waits is taken out of the line. -/
theorem leave (h : r.Registered) (hi : r.IsAt i stage) (hgoal : goal.ticket? ≠ some .waiting) :
    ({ r.move i goal with waiters := r.waiters.erase i } : WaitingRoom).Registered where
  nodup := h.nodup.erase i
  mem_iff j := by
    show j ∈ r.waiters.erase i ↔ (r.move i goal).IsWaiting j
    rw [isWaiting_move hi, h.nodup.mem_erase_iff, h.mem_iff]
    exact (or_iff_right fun h => hgoal h.2).symm

/-- A notification goes to the first consumer in the line, if there is one. -/
theorem notifyOne_cases (h : r.Registered) :
    r.waiters = [] ∧ r.notifyOne = { r with kept := true } ∨
      ∃ i is stage, r.waiters = i :: is ∧ r.IsAt i stage ∧ stage.ticket? = some .waiting ∧
        stage.notify.ticket? = some .notified ∧
        r.notifyOne = { r.move i stage.notify with waiters := is } := by
  by_cases hwaiters : r.waiters = []
  · exact .inl ⟨hwaiters, notifyOne_nil hwaiters⟩
  · obtain ⟨i, is, hfirst⟩ := List.exists_cons_of_ne_nil hwaiters
    obtain ⟨stage, hi, hwaiting⟩ := (h.mem_iff i).1 (hfirst ▸ List.mem_cons_self)
    exact .inr ⟨i, is, stage, hfirst, hi, hwaiting,
      Stage.ticket?_notify (by rw [hwaiting]; nofun), notifyOne_cons hfirst hi⟩

theorem notifyOne (h : r.Registered) : r.notifyOne.Registered := by
  rcases h.notifyOne_cases with ⟨-, heq⟩ | ⟨i, is, stage, hwaiters, hi, -, hnotified, heq⟩
  · rw [heq]
    exact h.congr rfl rfl
  · rw [heq]
    have hleft : ({ r.move i stage.notify with waiters := r.waiters.erase i } :
        WaitingRoom).Registered := h.leave hi (by rw [hnotified]; decide)
    refine hleft.congr ?_ rfl
    show is = r.waiters.erase i
    rw [hwaiters, List.erase_cons_head]

theorem enter (h : r.Registered) (hi : r.IsAt i stage) (hnot : stage.ticket? ≠ some .waiting)
    (woken : Bool) : (r.enter i woken).Registered := by
  unfold WaitingRoom.enter
  split
  · have hmoved : (r.move i (.checking .granted woken)).Registered :=
      h.move hi (iff_of_false nofun hnot)
    exact hmoved.congr rfl rfl
  · have hnew : i ∉ r.waiters := fun hmem => hnot (hi.isWaiting_iff.1 ((h.mem_iff i).1 hmem))
    refine ⟨List.nodup_append.2 ⟨h.nodup, List.pairwise_singleton _ i, ?_⟩, fun j => ?_⟩
    · rintro a ha b hb rfl
      exact hnew (List.mem_singleton.1 hb ▸ ha)
    · show j ∈ r.waiters ++ [i] ↔ (r.move i (.checking .waiting woken)).IsWaiting j
      rw [isWaiting_move hi, List.mem_append, List.mem_singleton, h.mem_iff]
      by_cases hj : j = i
      · simp [hj, Stage.ticket?]
      · simp [hj]

theorem giveBack (h : r.Registered) (hi : r.IsAt i stage) (ht : stage.ticket? = some t)
    (hgoal : goal.ticket? = none) : (r.giveBack i t goal).Registered := by
  have hnot : goal.ticket? ≠ some .waiting := by rw [hgoal]; nofun
  cases t with
  | granted => exact h.move hi (iff_of_false hnot (by rw [ht]; decide))
  | waiting => exact h.leave hi hnot
  | notified => exact (h.move hi (iff_of_false hnot (by rw [ht]; decide))).notifyOne

theorem arrive (h : r.Registered) :
    ({ r with consumers := r.consumers ++ [.arrived] } : WaitingRoom).Registered where
  nodup := h.nodup
  mem_iff j := by
    show j ∈ r.waiters ↔ _
    rw [h.mem_iff]
    unfold IsWaiting
    simp only [isAt_arrive]
    constructor
    · rintro ⟨stage, hat, hwaiting⟩
      exact ⟨stage, .inl hat, hwaiting⟩
    · rintro ⟨stage, hat | ⟨-, rfl⟩, hwaiting⟩
      · exact ⟨stage, hat, hwaiting⟩
      · cases hwaiting

theorem step (h : r.Registered) (hstep : r.step a = some r') : r'.Registered := by
  cases stepped_of_step hstep with
  | pushed | refused | called => exact h.congr rfl rfl
  | announced => exact notifyOne (h.congr rfl rfl)
  | arrived => exact h.arrive
  | registered hi => exact h.enter hi nofun false
  | @resumed i t hi ht => exact h.enter hi (fun hwaiting => ht (Option.some.inj hwaiting)) _
  | @found i t woken job _ hi =>
    have hmoved : (r.move i (.leaving t job)).Registered := h.move hi Iff.rfl
    exact hmoved.congr rfl rfl
  | @parked i t woken _ hi =>
    have hmoved : (r.move i (.parked t)).Registered := h.move hi Iff.rfl
    exact hmoved.congr rfl rfl
  | left hi => exact h.giveBack hi rfl rfl
  | stopped hi => exact h.move hi Iff.rfl
  | stoppedAtLock hi => exact h.giveBack hi rfl rfl
  | stoppedAtWait hi => exact h.giveBack hi rfl rfl

end Registered

/-! ### Who is on the way -/

/-- How many are on the way to the queue. A consumer that is notified once more before it has looked
counts twice: it has still to act on that. -/
def onTheWay (r : WaitingRoom) : Nat :=
  r.announcing.length + r.consumers.countP Stage.isNotified + r.consumers.countP Stage.isWoken

/-- How many were broken off on their way. -/
def unheeded (r : WaitingRoom) : Nat := r.consumers.countP Stage.isUnheeded

/-- What a consumer at the stage counts. -/
def Stage.share (stage : Stage) : Nat :=
  stage.isNotified.toNat + stage.isWoken.toNat + stage.isUnheeded.toNat

theorem Stage.share_notify (h : stage.ticket? = some .waiting) :
    stage.notify.share = stage.share + 1 := by
  cases stage with
  | checking t woken =>
    cases h
    cases woken <;> rfl
  | parked t => cases h; rfl
  | leaving t job => cases h; rfl
  | arrived | served | gone => cases h

theorem Stage.eq_of_isWoken (h : stage.isWoken = true) : ∃ t, stage = .checking t true := by
  cases stage with
  | checking t woken => exact ⟨t, congrArg (Stage.checking t) h⟩
  | arrived | parked | leaving | served | gone => cases h

theorem Stage.eq_of_isUnheeded (h : stage.isUnheeded = true) : stage = .gone true := by
  cases stage with
  | gone unheeded => exact congrArg Stage.gone h
  | arrived | checking | parked | leaving | served => cases h

theorem Stage.share_of_ticket (h : stage.ticket? = some t) :
    stage.share = (if t = .notified then 1 else 0) + stage.isWoken.toNat := by
  have hstays : stage.isUnheeded = false := by cases stage <;> first | rfl | cases h
  rw [share, isNotified, h, hstays]
  cases t <;> rfl

theorem countP_set {stages : List Stage} (p : Stage → Bool) (h : stages[i]? = some stage)
    (goal : Stage) :
    (stages.set i goal).countP p + (p stage).toNat = stages.countP p + (p goal).toNat := by
  induction stages generalizing i with
  | nil => cases h
  | cons first stages ih =>
    cases i with
    | zero =>
      obtain rfl : first = stage := Option.some.inj h
      rw [List.set_cons_zero, List.countP_cons, List.countP_cons]
      cases p first <;> cases p goal <;> rfl
    | succ i =>
      have hrest := ih (i := i) h
      rw [List.set_cons_succ, List.countP_cons, List.countP_cons]
      omega

theorem onTheWay_move (h : r.IsAt i stage) (goal : Stage) :
    (r.move i goal).onTheWay + (r.move i goal).unheeded + stage.share =
      r.onTheWay + r.unheeded + goal.share := by
  have hnotified := countP_set Stage.isNotified h goal
  have hwoken := countP_set Stage.isWoken h goal
  have hunheeded := countP_set Stage.isUnheeded h goal
  unfold onTheWay unheeded Stage.share move
  dsimp only
  omega

/-- If a consumer waits that is not notified, those on the way, those broken off there, and `n`
more, are as many as the jobs in the queue. -/
def Enough (n : Nat) (r : WaitingRoom) : Prop :=
  ∀ i, r.IsAt i (.parked .waiting) → r.queue.pending.length ≤ r.onTheWay + r.unheeded + n

namespace Enough

theorem start : Enough 0 {} := fun i hi => by cases hi

theorem congr (h : r.Enough n) (hconsumers : r'.consumers = r.consumers)
    (hcount : r'.queue.pending.length + r.announcing.length + n ≤
      r.queue.pending.length + r'.announcing.length + k) : r'.Enough k := by
  intro i hi
  have hbefore := h i (by unfold IsAt; rw [← hconsumers]; exact hi)
  unfold onTheWay unheeded at hbefore ⊢
  rw [hconsumers]
  omega

theorem move (h : r.Enough n) (hi : r.IsAt i stage) (hgoal : goal ≠ .parked .waiting)
    (hshare : stage.share + n ≤ goal.share + k) : (r.move i goal).Enough k := by
  intro j hj
  rcases (isAt_move hi).1 hj with ⟨-, hgoal'⟩ | ⟨-, hj⟩
  · exact absurd hgoal'.symm hgoal
  · have hbefore := h j hj
    have hmoved := onTheWay_move hi goal
    show r.queue.pending.length ≤ _
    omega

/-- A notification that goes out puts one more consumer on its way. -/
theorem notifyOne (h : r.Enough (n + 1)) (hreg : r.Registered) : r.notifyOne.Enough n := by
  rcases hreg.notifyOne_cases with
    ⟨hwaiters, heq⟩ | ⟨i, is, stage, -, hi, hwaiting, hnotified, heq⟩
  · -- Nobody is in the line, so nobody waits.
    rw [heq]
    intro i hi
    have hmem := (hreg.mem_iff i).2 ⟨_, hi, rfl⟩
    rw [hwaiters] at hmem
    cases hmem
  · have hshare : stage.share + (n + 1) ≤ stage.notify.share + n :=
      Nat.le_of_eq (by rw [Stage.share_notify hwaiting]; omega)
    have hgoal : stage.notify ≠ .parked .waiting := by
      intro hparked
      rw [hparked] at hnotified
      cases hnotified
    rw [heq]
    exact (h.move hi hgoal hshare).congr rfl (Nat.le_refl _)

theorem enter (h : r.Enough n) (hi : r.IsAt i stage) {woken : Bool}
    (hshare : stage.share = woken.toNat) : (r.enter i woken).Enough n := by
  have hmoved (t : Ticket) (ht : t ≠ .notified) : (r.move i (.checking t woken)).Enough n := by
    refine h.move hi nofun (Nat.le_of_eq ?_)
    rw [hshare, Stage.share_of_ticket (t := t) rfl, if_neg ht, Nat.zero_add]
    rfl
  unfold WaitingRoom.enter
  split
  · exact (hmoved .granted nofun).congr rfl (Nat.le_refl _)
  · exact (hmoved .waiting nofun).congr rfl (Nat.le_refl _)

/-- A consumer that goes away passes its notification on, but not one that it has acted on. -/
theorem giveBack (h : r.Enough n) (hreg : r.Registered) (hi : r.IsAt i stage)
    (ht : stage.ticket? = some t) (hgoal : goal.ticket? = none)
    (hshare : goal.share = stage.isWoken.toNat) : (r.giveBack i t goal).Enough n := by
  have hne : goal ≠ .parked .waiting := fun heq => by rw [heq] at hgoal; cases hgoal
  have hstage := Stage.share_of_ticket ht
  cases t with
  | granted => exact h.move hi hne (by rw [hstage, if_neg nofun]; omega)
  | waiting =>
    have hmoved : (r.move i goal).Enough n :=
      h.move hi hne (by rw [hstage, if_neg nofun]; omega)
    exact hmoved.congr rfl (Nat.le_refl _)
  | notified =>
    have hmoved : (r.move i goal).Enough (n + 1) :=
      h.move hi hne (by rw [hstage, if_pos rfl]; omega)
    exact hmoved.notifyOne (hreg.move hi (by rw [hgoal, ht]; decide))

theorem arrive (h : r.Enough n) :
    ({ r with consumers := r.consumers ++ [.arrived] } : WaitingRoom).Enough n := by
  intro i hi
  rcases isAt_arrive.1 hi with hi | ⟨-, hstage⟩
  · have hbefore := h i hi
    unfold onTheWay unheeded at hbefore ⊢
    rw [List.countP_append, List.countP_append, List.countP_append]
    exact hbefore
  · cases hstage

theorem step (h : r.Enough 0) (hreg : r.Registered) (hstep : r.step a = some r') :
    r'.Enough 0 := by
  cases stepped_of_step hstep with
  | pushed hpush =>
    -- One job more, and one producer that has yet to notify.
    refine h.congr rfl ?_
    rw [Queue.length_pending_of_enqueue hpush, List.length_append, List.length_singleton]
    omega
  | refused hpush =>
    rw [Queue.eq_of_enqueue_error hpush]
    exact h
  | @announced index hindex =>
    have hannounced : ({ r with announcing := r.announcing.eraseIdx index } :
        WaitingRoom).Enough 1 := by
      refine h.congr rfl ?_
      show r.queue.pending.length + r.announcing.length + 0 ≤
        r.queue.pending.length + (r.announcing.eraseIdx index).length + 1
      rw [List.length_eraseIdx_of_lt hindex]
      omega
    exact hannounced.notifyOne (hreg.congr rfl rfl)
  | called hc => exact h.congr rfl (by have := r.queue.length_pending_call hc; dsimp only; omega)
  | arrived => exact h.arrive
  | registered hi => exact h.enter hi rfl
  | @resumed i t hi ht => exact h.enter hi (by cases t <;> rfl)
  | @found i t woken job queue hi hfound =>
    -- Its look is used up, and so is a job.
    have hmoved : (r.move i (.leaving t job)).Enough 1 := by
      refine h.move hi nofun ?_
      have hlook := Bool.toNat_le woken
      rw [Stage.share_of_ticket (t := t) rfl, Stage.share_of_ticket (t := t) rfl]
      show _ + woken.toNat + 0 ≤ _ + 0 + 1
      omega
    have hlength := Queue.length_pending_of_dequeue hfound
    refine hmoved.congr rfl ?_
    show queue.pending.length + r.announcing.length + 1 ≤
      r.queue.pending.length + r.announcing.length + 0
    omega
  | parked hi hnone =>
    -- It has looked for nothing, but there is no job to look for.
    intro j _
    rw [Queue.pending_of_dequeue_none hnone]
    exact Nat.zero_le _
  | left hi => exact h.giveBack hreg hi rfl rfl rfl
  | stopped hi => exact h.move hi nofun (Nat.le_refl _)
  | stoppedAtLock hi => exact h.giveBack hreg hi rfl rfl (Nat.zero_add _)
  | stoppedAtWait hi => exact h.giveBack hreg hi rfl rfl rfl

end Enough

theorem Reachable.enough (h : r.Reachable) : r.Registered ∧ r.Enough 0 := by
  obtain ⟨actions, rfl⟩ := h
  exact run_induction (P := fun r => r.Registered ∧ r.Enough 0)
    (fun _ _ _ h hstep => ⟨h.1.step hstep, h.2.step h.1 hstep⟩) ⟨.start, .start⟩ actions

theorem exists_isAt_of_countP {p : Stage → Bool} (h : 0 < r.consumers.countP p) :
    ∃ j stage, r.IsAt j stage ∧ p stage = true := by
  obtain ⟨stage, hmem, hp⟩ := List.countP_pos_iff.1 h
  obtain ⟨j, hj⟩ := List.mem_iff_getElem?.1 hmem
  exact ⟨j, stage, hj, hp⟩

/-- In every order of the steps of all, while a consumer waits that has not been notified: there are
no more jobs in the queue than are on the way, and were broken off there. So if none was and there
is a job, a producer has yet to notify, or a consumer has been notified and has yet to act on it, or
a notification has brought a consumer to look, and it is about to. -/
theorem someone_on_the_way (h : r.Reachable) (hwaits : r.IsAt i (.parked .waiting)) :
    r.queue.pending.length ≤ r.onTheWay + r.unheeded ∧
      (r.queue.pending ≠ [] → (∀ j, ¬ r.IsAt j (.gone true)) →
        r.announcing ≠ [] ∨ (∃ j stage, r.IsAt j stage ∧ stage.ticket? = some .notified) ∨
          ∃ j t, r.IsAt j (.checking t true)) := by
  have henough := h.enough.2 i hwaits
  refine ⟨henough, fun hjob hheeded => ?_⟩
  have hnone : r.unheeded = 0 := by
    refine Nat.eq_zero_of_not_pos fun hpos => ?_
    obtain ⟨j, stage, hj, hstage⟩ := exists_isAt_of_countP hpos
    obtain rfl := Stage.eq_of_isUnheeded hstage
    exact hheeded j hj
  have hway : 0 < r.onTheWay := by
    rw [hnone] at henough
    exact Nat.lt_of_lt_of_le (List.length_pos_iff.2 hjob) henough
  by_cases hannouncing : r.announcing = []
  · refine .inr ?_
    rw [onTheWay, hannouncing, List.length_nil, Nat.zero_add, Nat.add_pos_iff_pos_or_pos] at hway
    rcases hway with hnotified | hwoken
    · obtain ⟨j, stage, hj, hstage⟩ := exists_isAt_of_countP hnotified
      exact .inl ⟨j, stage, hj, eq_of_beq hstage⟩
    · obtain ⟨j, stage, hj, hstage⟩ := exists_isAt_of_countP hwoken
      obtain ⟨t, rfl⟩ := Stage.eq_of_isWoken hstage
      exact .inr ⟨j, t, hj⟩
  · exact .inl hannouncing

/-- Three consumers wait; a job comes, the first consumer is notified and broken off before it can
act on it. A fourth one is broken off in front of the lock on its first look. -/
theorem someone_on_the_way_broken_off :
    let t : Instant := .ofNanos 0
    let r := ({} : WaitingRoom).run
      [.arrive, .register 0, .check 0, .arrive, .register 1, .check 1,
        .arrive, .register 2, .check 2, .arrive, .register 3,
        .push t (.submitted "a" .embeddings "[]" t), .announce 0, .cancel 0, .cancel 3]
    r.queue.pending = ["a"] ∧ r.IsAt 2 (.parked .waiting) ∧ r.announcing = [] ∧
      (∀ stage ∈ r.consumers, stage.isWoken = false) ∧
      ∃ j stage, r.IsAt j stage ∧ stage.ticket? = some .notified := by
  intro t r
  have hwaits : r.IsAt 2 (.parked .waiting) := rfl
  have hnone : ∀ stage ∈ r.consumers, stage.isWoken = false := by decide
  have hheeded : ∀ stage ∈ r.consumers, stage ≠ .gone true := by decide
  refine ⟨rfl, hwaits, rfl, hnone, ?_⟩
  obtain ⟨-, hsomeone⟩ := someone_on_the_way ⟨_, rfl⟩ hwaits
  rcases hsomeone nofun fun j hj => hheeded _ (List.mem_of_getElem? hj) rfl with
    hannouncing | hnotified | ⟨j, t, hj⟩
  · exact absurd rfl hannouncing
  · exact hnotified
  · cases hnone _ (List.mem_of_getElem? hj)

/-- Two consumers wait, and a job comes. The first one is notified, registers anew, and its time
runs out while somebody else has the lock of the queue. Now the job is in the queue, the second
consumer waits, and nobody is on the way: no producer has yet to notify, no consumer is notified,
and none is about to look. -/
theorem lost_in_front_of_lock :
    let t : Instant := .ofNanos 0
    let r := ({} : WaitingRoom).run
      [.arrive, .register 0, .check 0, .arrive, .register 1, .check 1,
        .push t (.submitted "a" .embeddings "[]" t), .announce 0, .resume 0, .cancel 0]
    r.Reachable ∧ r.IsAt 1 (.parked .waiting) ∧ r.queue.pending = ["a"] ∧ r.announcing = [] ∧
      ∀ stage ∈ r.consumers,
        stage.ticket? ≠ some .notified ∧ ∀ t woken, stage ≠ .checking t woken := by
  intro t r
  have hstages : r.consumers = [.gone true, .parked .waiting] := rfl
  refine ⟨⟨_, rfl⟩, rfl, rfl, rfl, fun stage hmem => ?_⟩
  rw [hstages] at hmem
  rcases List.mem_pair.1 hmem with rfl | rfl
  · exact ⟨nofun, nofun⟩
  · exact ⟨nofun, nofun⟩

end WaitingRoom

end InferenceFleet
