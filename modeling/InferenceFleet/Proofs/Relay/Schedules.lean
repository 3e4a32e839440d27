import InferenceFleet.Proofs.Relay

/-!
# The relay under every schedule

`Relay.Sound` says, for a caller that stays as for one that goes, where the items of the node's
stream are: those that were pulled and not refused are in order, and nothing follows a failure. Each
step leaves less to do (`work_lt_of_step`). So a schedule in which each side keeps getting its turn
brings the relay to rest, and at rest the producer has let go of the stream and nothing is left for
a caller that has stayed.
-/

namespace InferenceFleet

theorem untilFault_append {is js : List Item} (h : ∀ i ∈ is, Relay.isFault i = false) :
    untilFault (is ++ js) = is ++ untilFault js := by
  induction is with
  | nil => rfl
  | cons i is ih =>
    cases i with
    | error fault => cases h (.error fault) List.mem_cons_self
    | ok chunk =>
      rw [List.cons_append, untilFault, ih fun j hj => h j (List.mem_cons_of_mem _ hj),
        List.cons_append]

theorem singleton_prefix_untilFault (i : Item) (is : List Item) : [i] <+: untilFault (i :: is) := by
  cases i with
  | ok chunk => exact ⟨untilFault is, rfl⟩
  | error fault => exact List.prefix_rfl

namespace Relay
variable {u : List Item} {r r' : Relay} {m : Move} {moves : List Move}

/-- What has been pulled and not refused. -/
def passed (r : Relay) : List Item := r.received ++ r.buffer ++ r.held.toList

/-- The relay holds the items of the stream `u` in order. -/
structure Sound (u : List Item) (r : Relay) : Prop where
  /-- One item at the most is lost: the one that the caller was no longer there to take. -/
  source : ∃ lost, u = r.passed ++ lost ++ r.source ∧ r.held.toList.length + lost.length ≤ 1 ∧
    (r.stopped = false → lost = [])
  /-- Sending a failure stops the producer. -/
  clear : r.stopped = false → ∀ i ∈ r.received ++ r.buffer, isFault i = false
  order : r.passed <+: untilFault u
  room : r.buffer.length ≤ capacity
  idle : r.stopped = true → r.held = none

theorem Sound.start (u : List Item) : Sound u { source := u } where
  source := ⟨[], rfl, Nat.zero_le 1, fun _ => rfl⟩
  clear _ _ hi := by cases hi
  order := List.nil_prefix
  room := Nat.zero_le _
  idle := nofun

theorem Sound.not_stopped (h : r.Sound u) {i : Item} (hi : r.held = some i) :
    r.stopped = false := by
  cases hs : r.stopped with
  | false => rfl
  | true => cases (h.idle hs).symm.trans hi

theorem Sound.step (h : r.Sound u) (hstep : r.step m = some r') : r'.Sound u := by
  obtain ⟨lost, hu, hcount, hlost⟩ := h.source
  cases stepped_of_step hstep with
  | ended _ hnone _ => exact ⟨⟨lost, hu, hcount, nofun⟩, nofun, h.order, h.room, fun _ => hnone⟩
  | @pulled i is hstopped hnone hsource =>
    have hpassed : r.passed = r.received ++ r.buffer := by
      rw [passed, hnone]
      exact List.append_nil _
    have hsplit : u = (r.received ++ r.buffer) ++ i :: is := by
      rw [hu, hlost hstopped, List.append_nil, hpassed, hsource]
    refine ⟨⟨[], ?_, Nat.le_refl 1, fun _ => rfl⟩, fun _ => h.clear hstopped, ?_, h.room,
      fun hs => by cases hstopped.symm.trans hs⟩
    · rw [hsplit]
      simp [passed]
    · rw [hsplit, untilFault_append (h.clear hstopped)]
      exact (List.prefix_append_right_inj _).2 (singleton_prefix_untilFault i is)
  | @refused i hi _ =>
    have hnone : lost = [] := hlost (h.not_stopped hi)
    refine ⟨⟨[i], ?_, Nat.le_refl 1, nofun⟩, nofun, ?_, h.room, fun _ => rfl⟩
    · rw [hu, hnone]
      simp [passed, hi]
    · exact List.IsPrefix.trans ⟨[i], by simp [passed, hi]⟩ h.order
  | @sent i hi _ hroom =>
    have hstopped := h.not_stopped hi
    have hpassed : (r.received ++ (r.buffer ++ [i])) ++ [] = r.passed := by simp [passed, hi]
    refine ⟨⟨lost, ?_, by rw [hlost hstopped]; exact Nat.zero_le 1, fun _ => hlost hstopped⟩,
      fun hfault => ?_, ?_, ?_, fun _ => rfl⟩
    · show u = (r.received ++ (r.buffer ++ [i])) ++ [] ++ lost ++ r.source
      rw [hpassed]
      exact hu
    · show ∀ j ∈ r.received ++ (r.buffer ++ [i]), isFault j = false
      rw [← List.append_assoc]
      intro j hj
      rcases List.mem_append.1 hj with hj | hj
      · exact h.clear hstopped j hj
      · rw [List.mem_singleton.1 hj]
        exact hfault
    · show (r.received ++ (r.buffer ++ [i])) ++ [] <+: untilFault u
      rw [hpassed]
      exact h.order
    · rw [List.length_append]
      exact hroom
  | @received i is _ hbuffer =>
    have hitems : r.received ++ [i] ++ is = r.received ++ r.buffer := by
      rw [hbuffer, List.append_assoc, List.singleton_append]
    have hpassed : r.received ++ [i] ++ is ++ r.held.toList = r.passed := by rw [hitems, passed]
    refine ⟨⟨lost, ?_, hcount, hlost⟩, fun hs => ?_, ?_, ?_, h.idle⟩
    · show u = r.received ++ [i] ++ is ++ r.held.toList ++ lost ++ r.source
      rw [hpassed]
      exact hu
    · show ∀ j ∈ r.received ++ [i] ++ is, isFault j = false
      rw [hitems]
      exact h.clear hs
    · show r.received ++ [i] ++ is ++ r.held.toList <+: untilFault u
      rw [hpassed]
      exact h.order
    · have hroom := h.room
      rw [hbuffer, List.length_cons] at hroom
      exact Nat.le_of_succ_le hroom
  | dropped _ => exact ⟨⟨lost, hu, hcount, hlost⟩, h.clear, h.order, h.room, h.idle⟩

theorem run_cons (r : Relay) (m : Move) (moves : List Move) :
    r.run (m :: moves) = ((r.step m).getD r).run moves := rfl

theorem run_append (r : Relay) (moves more : List Move) :
    r.run (moves ++ more) = (r.run moves).run more := List.foldl_append

/-- What every step keeps, a run keeps. -/
theorem run_induction {P : Relay → Prop} (hstep : ∀ {r m r'}, P r → Relay.step r m = some r' → P r')
    (h : P r) (moves : List Move) : P (r.run moves) := by
  induction moves generalizing r with
  | nil => exact h
  | cons m moves ih =>
    rw [run_cons]
    refine ih ?_
    cases hm : r.step m with
    | none => exact h
    | some r' => exact hstep h hm

theorem Sound.run (u : List Item) (moves : List Move) :
    (Relay.run { source := u } moves).Sound u :=
  run_induction Sound.step (.start u) moves

theorem Sound.pulled (h : r.Sound u) : ∃ pulled, u = pulled ++ r.source ∧
    pulled.length ≤ r.received.length + (capacity + 1) := by
  obtain ⟨lost, hu, hcount, -⟩ := h.source
  refine ⟨r.passed ++ lost, hu, ?_⟩
  have hroom := h.room
  simp only [passed, List.length_append]
  omega

/-! ### When the caller has gone -/

/-- How many items the producer may still pull when the caller has gone. -/
def allowance (r : Relay) : Nat := if r.stopped || r.held.isSome then 0 else 1

/-- The caller has gone, and no more than `n` items were pulled since the source was `is`. -/
def Abandoned (is : List Item) (n : Nat) (r : Relay) : Prop :=
  r.dropped = true ∧ ∃ pulled, is = pulled ++ r.source ∧ pulled.length + r.allowance ≤ n

theorem Abandoned.step {is : List Item} {n : Nat} (h : r.Abandoned is n)
    (hstep : r.step m = some r') : r'.Abandoned is n := by
  obtain ⟨hgone, pulled, his, hcount⟩ := h
  cases stepped_of_step hstep with
  | ended => exact ⟨hgone, pulled, his, Nat.le_trans (Nat.le_add_right _ _) hcount⟩
  | @pulled i is' hstopped hnone hsource =>
    refine ⟨hgone, pulled ++ [i], by rw [his, hsource, List.append_assoc]; rfl, ?_⟩
    simp only [allowance, hstopped, hnone, Option.isSome_none, Bool.or_false, Bool.false_eq_true,
      if_false] at hcount
    simpa [allowance] using hcount
  | refused => exact ⟨hgone, pulled, his, Nat.le_trans (Nat.le_add_right _ _) hcount⟩
  | sent _ hpresent => cases hpresent.symm.trans hgone
  | received hpresent => cases hpresent.symm.trans hgone
  | dropped hpresent => cases hpresent.symm.trans hgone

theorem pulled_of_dropped (hgone : r.dropped = true) (more : List Move) :
    ∃ pulled, r.source = pulled ++ (r.run more).source ∧ pulled.length ≤ 1 := by
  have hstart : r.Abandoned r.source 1 := by
    refine ⟨hgone, [], rfl, ?_⟩
    rw [allowance]
    split <;> simp
  obtain ⟨-, pulled, hsource, hcount⟩ := run_induction Abandoned.step hstart more
  exact ⟨pulled, hsource, Nat.le_trans (Nat.le_add_right _ _) hcount⟩

/-- The producer holds nothing and has let go of the source, which is `is`. -/
structure LetGo (is : List Item) (r : Relay) : Prop where
  stopped : r.stopped = true
  held : r.held = none
  source : r.source = is

theorem LetGo.step {is : List Item} (h : r.LetGo is) (hstep : r.step m = some r') :
    r'.LetGo is := by
  obtain ⟨hstopped, hnone, hsource⟩ := h
  cases stepped_of_step hstep with
  | ended hs | pulled hs => cases hs.symm.trans hstopped
  | refused hi | sent hi => cases hi.symm.trans hnone
  | received | dropped => exact ⟨hstopped, hnone, hsource⟩

theorem Sound.source_of_stopped (h : r.Sound u) (hstopped : r.stopped = true) (more : List Move) :
    (r.run more).source = r.source :=
  (run_induction LetGo.step ⟨hstopped, h.idle hstopped, rfl⟩ more).source

/-! ### The relay comes to rest -/

/-- What is left to do. An item takes three steps from the source to the caller. -/
def work (r : Relay) : Nat :=
  4 * r.source.length + 3 * r.held.toList.length + r.buffer.length +
    (if r.stopped then 0 else 1) + if r.dropped then 0 else 1

theorem work_lt_of_step (h : r.step m = some r') : r'.work < r.work := by
  cases stepped_of_step h with
  | ended hstopped hnone hsource => simp [work, hstopped]
  | pulled hstopped hnone hsource =>
    simp only [work, hsource, hnone, List.length_cons, Option.toList_some, Option.toList_none,
      List.length_nil]
    omega
  | refused hi hgone =>
    simp only [work, hi, Option.toList_some, Option.toList_none, List.length_cons, List.length_nil,
      if_true]
    omega
  | @sent i hi hpresent hroom =>
    have hstops : (if isFault i = true then 0 else 1) ≤ 1 := by split <;> simp
    simp only [work, hi, Option.toList_some, Option.toList_none, List.length_cons, List.length_nil,
      List.length_append]
    omega
  | received hpresent hbuffer => simp [work, hbuffer]
  | dropped hpresent => simp [work, hpresent]

/-- Neither side can take a step; the caller may still go. -/
def AtRest (r : Relay) : Prop := ∀ m, m ≠ .drop → r.step m = none

theorem AtRest.stopped (h : r.AtRest) :
    r.stopped = true ∧ r.held = none ∧ (r.dropped = false → r.buffer = []) := by
  have hbuffer : r.dropped = false → r.buffer = [] := by
    intro hpresent
    have hreceive := h .receive fun heq => (by cases heq)
    cases hitems : r.buffer with
    | nil => rfl
    | cons i is => simp [step, hpresent, hitems] at hreceive
  have hheld : r.held = none := by
    have hsend := h .send fun heq => (by cases heq)
    cases hi : r.held with
    | none => rfl
    | some i =>
      cases hgone : r.dropped with
      | true => simp [step, hi, hgone] at hsend
      | false => simp [step, hi, hgone, hbuffer hgone, capacity] at hsend
  have hpull := h .pull fun heq => (by cases heq)
  refine ⟨?_, hheld, hbuffer⟩
  cases hs : r.stopped with
  | true => rfl
  | false =>
    simp only [step, hs, hheld, Option.isSome_none, Bool.or_false, Bool.false_eq_true,
      if_false] at hpull
    split at hpull <;> cases hpull

theorem AtRest.step (h : r.AtRest) (hstep : r.step m = some r') : r'.AtRest := by
  obtain ⟨hstopped, hnone, -⟩ := h.stopped
  by_cases hm : m = .drop
  · subst hm
    cases stepped_of_step hstep
    intro n hn
    cases n with
    | pull => simp [Relay.step, hstopped]
    | send => simp [Relay.step, hnone]
    | receive => simp [Relay.step]
    | drop => exact absurd rfl hn
  · cases (h m hm).symm.trans hstep

/-- The relay after the first `n` moves of a schedule for the stream `u`. -/
def after (u : List Item) (schedule : Nat → Move) (n : Nat) : Relay :=
  Relay.run { source := u } ((List.range n).map schedule)

/-- Each side gets its turn again and again. -/
def Fair (schedule : Nat → Move) : Prop := ∀ m, m ≠ .drop → ∀ n, ∃ k, n ≤ k ∧ schedule k = m

section Schedule
variable {schedule : Nat → Move} {n k : Nat}

theorem after_succ (u : List Item) (schedule : Nat → Move) (n : Nat) :
    after u schedule (n + 1) =
      ((after u schedule n).step (schedule n)).getD (after u schedule n) := by
  rw [after, List.range_succ, List.map_append, run_append]
  rfl

/-- What every step keeps, the rest of a schedule keeps. -/
theorem after_induction {P : Relay → Prop}
    (hstep : ∀ {r m r'}, P r → Relay.step r m = some r' → P r') (h : P (after u schedule n))
    (hk : n ≤ k) : P (after u schedule k) := by
  induction hk with
  | refl => exact h
  | @step k _ ih =>
    rw [after_succ]
    cases hm : (after u schedule k).step (schedule k) with
    | none => exact ih
    | some r' => exact hstep ih hm

theorem atRest_of_fair (u : List Item) (h : Fair schedule) :
    ∃ n, ∀ k, n ≤ k → (after u schedule k).AtRest := by
  suffices hrest : ∀ n, ∃ k, (after u schedule k).AtRest by
    obtain ⟨n, hn⟩ := hrest 0
    exact ⟨n, fun k hk => after_induction AtRest.step hn hk⟩
  intro n
  induction hw : (after u schedule n).work using Nat.strongRecOn generalizing n with
  | ind w ih =>
    by_cases hrest : (after u schedule n).AtRest
    · exact ⟨n, hrest⟩
    · -- A step that can be taken can still be taken at its turn, unless another came before it.
      simp only [AtRest, Classical.not_forall] at hrest
      obtain ⟨m, hm, hcan⟩ := hrest
      obtain ⟨r', hr'⟩ := Option.ne_none_iff_exists'.1 hcan
      obtain ⟨k, hk, hturn⟩ := h m hm n
      have hless : after u schedule k = after u schedule n ∨
          (after u schedule k).work < (after u schedule n).work :=
        after_induction (P := fun r => r = after u schedule n ∨ r.work < (after u schedule n).work)
          (fun hr hs => .inr (by
            have hlt := work_lt_of_step hs
            rcases hr with rfl | hr
            · exact hlt
            · exact Nat.lt_trans hlt hr)) (.inl rfl) hk
      rcases hless with heq | hlt
      · have hnext : after u schedule (k + 1) = r' := by rw [after_succ, hturn, heq, hr']; rfl
        exact ih _ (by rw [hnext, ← hw]; exact work_lt_of_step hr') (k + 1) rfl
      · exact ih _ (hw ▸ hlt) k rfl

theorem present_of_stays (u : List Item) (h : ∀ n, schedule n ≠ .drop) (n : Nat) :
    (after u schedule n).dropped = false := by
  induction n with
  | zero => rfl
  | succ n ih =>
    rw [after_succ]
    cases hm : (after u schedule n).step (schedule n) with
    | none => exact ih
    | some r' =>
      cases hs : schedule n with
      | drop => exact absurd hs (h n)
      | _ =>
        rw [hs] at hm
        cases stepped_of_step hm <;> exact ih

end Schedule

/-- However producer and caller take their turns: what has been received, is buffered and is held is
the beginning of the stream, which ends with its first failure; no more than 17 items are pulled
ahead of the caller, and one at the most when it has gone; a stopped producer has let go of the
stream; and what is received depends only on how much of it is. If each side keeps getting its turn,
a caller that stays comes to have all of it and to the end, and the producer stops in any case. -/
theorem received_under_every_schedule (u : List Item) :
    (∀ moves, let r := Relay.run { source := u } moves
      r.received ++ r.buffer ++ r.held.toList <+: untilFault u ∧
      (∃ pulled, u = pulled ++ r.source ∧ pulled.length ≤ r.received.length + 17) ∧
      (r.dropped = true → ∀ more, ∃ pulled, r.source = pulled ++ (r.run more).source ∧
        pulled.length ≤ 1) ∧
      (r.stopped = true → ∀ more, (r.run more).source = r.source) ∧
      r.received = (untilFault u).take r.received.length) ∧
    ∀ schedule, Fair schedule →
      (∃ n, ∀ k, n ≤ k → (after u schedule k).stopped = true ∧ (after u schedule k).held = none) ∧
      ((∀ n, schedule n ≠ .drop) → ∃ n, ∀ k, n ≤ k →
        (after u schedule k).Done ∧ (after u schedule k).received = untilFault u) := by
  refine ⟨fun moves => ?_, fun schedule hfair => ?_⟩
  · have hsound := Sound.run u moves
    have hreceived : (Relay.run { source := u } moves).received <+: untilFault u :=
      List.IsPrefix.trans ((List.prefix_append _ _).trans (List.prefix_append _ _)) hsound.order
    exact ⟨hsound.order, hsound.pulled, fun hgone => pulled_of_dropped hgone,
      fun hstopped => hsound.source_of_stopped hstopped, List.prefix_iff_eq_take.1 hreceived⟩
  · obtain ⟨n, hrest⟩ := atRest_of_fair u hfair
    refine ⟨⟨n, fun k hk => ?_⟩, fun hstays => ⟨n, fun k hk => ?_⟩⟩
    · obtain ⟨hstopped, hnone, -⟩ := (hrest k hk).stopped
      exact ⟨hstopped, hnone⟩
    · obtain ⟨hstopped, -, hbuffer⟩ := (hrest k hk).stopped
      have hpresent := present_of_stays u hstays k
      have hdone : (after u schedule k).Done := ⟨hpresent, hstopped, hbuffer hpresent⟩
      exact ⟨hdone, received_of_done hdone⟩

/-- Twenty chunks and a failure. The producer alone comes to a stop with 17 items pulled, and when
the caller has gone it pulls no further one; with a caller that takes its turns all items arrive. -/
theorem received_under_every_schedule_full :
    let u : List Item := List.replicate 20 (.ok {}) ++ [.error (.stream "cut"), .ok {}]
    let alone := (List.replicate 20 [Move.pull, .send]).flatten
    let turns (n : Nat) : Move := if n % 3 = 0 then .pull else if n % 3 = 1 then .send else .receive
    (Relay.run { source := u } alone).source.length = 5 ∧
      (∃ pulled, u = pulled ++ (Relay.run { source := u } alone).source ∧ pulled.length ≤ 17) ∧
      (Relay.run { source := u } (alone ++ [.drop] ++ alone)).stopped = true ∧
      (∃ pulled, (Relay.run { source := u } (alone ++ [.drop])).source =
        pulled ++ (Relay.run { source := u } (alone ++ [.drop] ++ alone)).source ∧
        pulled.length ≤ 1) ∧
      ∃ n, (after u turns n).Done ∧
        (after u turns n).received = List.replicate 20 (.ok {}) ++ [.error (.stream "cut")] := by
  intro u alone turns
  obtain ⟨hruns, hschedules⟩ := received_under_every_schedule u
  obtain ⟨-, hahead, -⟩ := hruns alone
  have hnone : (Relay.run { source := u } alone).received.length = 0 := by decide +kernel
  rw [hnone, Nat.zero_add] at hahead
  obtain ⟨-, -, hgone, -⟩ := hruns (alone ++ [.drop])
  have hfair : Fair turns := by
    intro m hm n
    cases m with
    | pull => exact ⟨3 * n, by omega, by simp [turns]⟩
    | send => exact ⟨3 * n + 1, by omega, by simp [turns, Nat.add_mod]⟩
    | receive => exact ⟨3 * n + 2, by omega, by simp [turns, Nat.add_mod]⟩
    | drop => exact absurd rfl hm
  have hstays : ∀ n, turns n ≠ .drop := by
    intro n
    simp only [turns]
    split
    · nofun
    · split <;> nofun
  obtain ⟨-, hcomes⟩ := hschedules turns hfair
  obtain ⟨n, hn⟩ := hcomes hstays
  refine ⟨by decide +kernel, hahead, by decide +kernel, ?_, n, hn n (Nat.le_refl n)⟩
  have hmore := run_append { source := u } (alone ++ [Move.drop]) alone
  rw [hmore]
  exact hgone (by decide +kernel) alone

end Relay

end InferenceFleet
