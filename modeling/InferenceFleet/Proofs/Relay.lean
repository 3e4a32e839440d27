import InferenceFleet.Relay

/-!
# What comes through the relay

As long as the caller stays, what it has received, what is buffered and what the producer has still
to send make up the node's stream, cut after its first failure (`Relay.Carries`). So a caller that
stays until the producer has stopped and the buffer is empty has received just that.
-/

namespace InferenceFleet

theorem untilFault_cases (items : List Item) :
    (∃ chunks : List Chunk, untilFault items = chunks.map .ok) ∨
      ∃ (chunks : List Chunk) (fault : AgentFault),
        untilFault items = chunks.map .ok ++ [.error fault] := by
  induction items with
  | nil => exact .inl ⟨[], rfl⟩
  | cons x items ih =>
    cases x with
    | error fault => exact .inr ⟨[], fault, rfl⟩
    | ok chunk =>
      rcases ih with ⟨chunks, h⟩ | ⟨chunks, fault, h⟩
      · exact .inl ⟨chunk :: chunks, by rw [untilFault, h, List.map_cons]⟩
      · exact .inr ⟨chunk :: chunks, fault, by rw [untilFault, h, List.map_cons, List.cons_append]⟩

namespace Relay
variable {u : List Item} {r r' : Relay} {m : Move}

/-- What the producer has still to send. -/
def due (r : Relay) : List Item :=
  if r.stopped then [] else untilFault (r.held.toList ++ r.source)

/-- The relay carries the stream `u`. -/
structure Carries (u : List Item) (r : Relay) : Prop where
  items : r.received ++ (r.buffer ++ r.due) = untilFault u
  held : r.stopped = true → r.held = none

/-- All that a step can make of a relay. -/
inductive Stepped (r : Relay) : Move → Relay → Prop where
  | ended : r.stopped = false → r.held = none → r.source = [] →
    Stepped r .pull { r with stopped := true }
  | pulled {i : Item} {is : List Item} : r.stopped = false → r.held = none → r.source = i :: is →
    Stepped r .pull { r with source := is, held := some i }
  | refused {i : Item} : r.held = some i → r.dropped = true →
    Stepped r .send { r with held := none, stopped := true }
  | sent {i : Item} : r.held = some i → r.dropped = false → r.buffer.length < capacity →
    Stepped r .send { r with held := none, buffer := r.buffer ++ [i], stopped := isFault i }
  | received {i : Item} {is : List Item} : r.dropped = false → r.buffer = i :: is →
    Stepped r .receive { r with buffer := is, received := r.received ++ [i] }
  | dropped : r.dropped = false → Stepped r .drop { r with dropped := true }

theorem stepped_of_step (h : r.step m = some r') : r.Stepped m r' := by
  cases m <;> simp only [step] at h
  case pull =>
    split at h
    · cases h
    · rename_i hfree
      simp only [Bool.or_eq_true, not_or, Bool.not_eq_true, Option.isSome_eq_false_iff,
        Option.isNone_iff_eq_none] at hfree
      split at h <;> cases h <;> rename_i hsource
      · exact .ended hfree.1 hfree.2 hsource
      · exact .pulled hfree.1 hfree.2 hsource
  case send =>
    split at h
    · cases h
    · rename_i i hheld
      split at h
      · rename_i hdropped
        cases h
        exact .refused hheld hdropped
      · rename_i hdropped
        split at h <;> cases h
        rename_i hroom
        exact .sent hheld (Bool.not_eq_true _ ▸ hdropped) hroom
  case receive =>
    split at h
    · cases h
    · rename_i hdropped
      split at h <;> cases h
      rename_i hbuffer
      exact .received (Bool.not_eq_true _ ▸ hdropped) hbuffer
  case drop =>
    split at h <;> cases h
    rename_i hdropped
    exact .dropped (Bool.not_eq_true _ ▸ hdropped)

theorem dropped_of_step (h : r.step m = some r') (hdropped : r'.dropped = false) :
    r.dropped = false := by
  cases stepped_of_step h with
  | ended | pulled | refused | sent | received => exact hdropped
  | dropped => cases hdropped

theorem Carries.step (h : r.Carries u) (hstep : r.step m = some r')
    (hdropped : r'.dropped = false) : r'.Carries u := by
  obtain ⟨hitems, hheld⟩ := h
  cases stepped_of_step hstep with
  | ended hstopped hnone hsource =>
    refine ⟨?_, fun _ => hnone⟩
    rw [← hitems, due, due, hstopped, hnone, hsource]
    rfl
  | pulled hstopped hnone hsource =>
    refine ⟨?_, fun hs => absurd (hstopped.symm.trans hs) Bool.false_ne_true⟩
    rw [← hitems, due, due, hstopped, hnone, hsource]
    rfl
  | refused _ hgone => cases hgone.symm.trans hdropped
  | @sent i hi _ _ =>
    have hstopped : r.stopped = false := by
      cases hs : r.stopped with
      | false => rfl
      | true =>
        rw [hheld hs] at hi
        cases hi
    refine ⟨?_, fun _ => rfl⟩
    rw [← hitems, due, due, hstopped, hi]
    cases i with
    | ok chunk => simp [untilFault, isFault]
    | error fault => simp [untilFault, isFault]
  | received _ hbuffer =>
    refine ⟨?_, hheld⟩
    rw [← hitems, hbuffer]
    simp [due]
  | dropped => cases hdropped

theorem dropped_of_next (h : ((r.step m).getD r).dropped = false) : r.dropped = false := by
  cases hstep : r.step m with
  | none =>
    rw [hstep] at h
    exact h
  | some r' =>
    rw [hstep] at h
    exact dropped_of_step hstep h

theorem Carries.next (h : r.Carries u) (hdropped : ((r.step m).getD r).dropped = false) :
    ((r.step m).getD r).Carries u := by
  cases hstep : r.step m with
  | none => exact h
  | some r' =>
    rw [hstep] at hdropped
    exact h.step hstep hdropped

theorem dropped_of_run {moves : List Move} (h : (r.run moves).dropped = false) :
    r.dropped = false := by
  induction moves generalizing r with
  | nil => exact h
  | cons m moves ih => exact dropped_of_next (ih h)

theorem Carries.run (h : r.Carries u) {moves : List Move}
    (hdropped : (r.run moves).dropped = false) : (r.run moves).Carries u := by
  induction moves generalizing r with
  | nil => exact h
  | cons m moves ih => exact ih (h.next (dropped_of_run hdropped)) hdropped

/-- The caller has stayed, and there is nothing more to come. -/
structure Done (r : Relay) : Prop where
  dropped : r.dropped = false
  stopped : r.stopped = true
  buffer : r.buffer = []

theorem received_of_done {moves : List Move} (h : (Relay.run { source := u } moves).Done) :
    (Relay.run { source := u } moves).received = untilFault u := by
  have hstart : Carries u { source := u } := ⟨rfl, nofun⟩
  obtain ⟨hitems, -⟩ := hstart.run h.dropped
  rw [← hitems, due, h.stopped, h.buffer]
  exact (List.append_nil _).symm

end Relay

end InferenceFleet
