import InferenceFleet.Queue

/-!
# Who has which job

A `Hold` is what one party that has a job can rely on: how the job's record may look, and whether an
agent may still be asked to serve the job. `Queue.Kept` is the invariant of a queue whose unfinished
jobs are shared out by holds, each to one: it says nothing of who the holders are, so one lemma for
each way of changing a hold is all that their steps need.
-/

namespace InferenceFleet

structure Hold where
  id : String
  /-- The records that the job can have. -/
  allows : Job → Prop
  /-- Whether an agent may still be asked to serve the job. -/
  mayAsk : Bool

/-- The hold on a job that is about to be let go for good. -/
def Hold.ofFinal (id : String) : Hold := ⟨id, fun j => j.status.isTerminal = true, false⟩

namespace Queue

/-- Each job is held at most once, the holds are true of the records, and the records that nobody
holds are `gone`. The jobs that agents were asked to serve are `served`, each of them once. -/
structure Kept (q : Queue) (served : List String) (gone : Job → Prop) (holds : List Hold) :
    Prop where
  once : (holds.map Hold.id).Nodup
  held : ∀ h ∈ holds, ∃ j, q.get? h.id = some j ∧ h.allows j
  left : ∀ id j, q.get? id = some j → id ∉ holds.map Hold.id → gone j
  served_once : served.Nodup
  recorded : ∀ id ∈ served, ∃ j, q.get? id = some j
  unserved : ∀ h ∈ holds, h.mayAsk = true → h.id ∉ served

namespace Kept
variable {q q' : Queue} {served : List String} {gone gone' : Job → Prop} {h h' : Hold}
  {holds holds' : List Hold} {j : Job}

theorem perm (hk : q.Kept served gone holds) (hp : holds.Perm holds') :
    q.Kept served gone holds' where
  once := (hp.map Hold.id).nodup_iff.1 hk.once
  held h hh := hk.held h (hp.mem_iff.2 hh)
  left id j hj hid := hk.left id j hj fun hmem => hid ((hp.map Hold.id).mem_iff.1 hmem)
  served_once := hk.served_once
  recorded := hk.recorded
  unserved h hh := hk.unserved h (hp.mem_iff.2 hh)

theorem mono (hk : q.Kept served gone holds) (hgone : ∀ j, gone j → gone' j) :
    q.Kept served gone' holds :=
  { hk with left := fun id j hj hid => hgone j (hk.left id j hj hid) }

/-- The holder of a job changes its record, and holds it on by `h'`. -/
theorem move (hk : q.Kept served gone (h :: holds)) (h' : Hold) (hid : h'.id = h.id)
    (hget : ∀ i, q'.get? i = if i = h.id then some j else q.get? i) (hj : h'.allows j)
    (hask : h'.mayAsk = true → h.mayAsk = true) : q'.Kept served gone (h' :: holds) := by
  have honce := List.nodup_cons.1 hk.once
  refine ⟨?_, ?_, ?_, hk.served_once, ?_, ?_⟩
  · rw [List.map_cons, hid]
    exact hk.once
  · intro g hg
    rcases List.mem_cons.1 hg with rfl | hg
    · exact ⟨j, by rw [hget, if_pos hid], hj⟩
    · have hne : g.id ≠ h.id := fun heq => honce.1 (heq ▸ List.mem_map_of_mem hg)
      rw [hget, if_neg hne]
      exact hk.held g (List.mem_cons_of_mem h hg)
  · intro id k hget' hout
    rw [List.map_cons, hid] at hout
    have hne : id ≠ h.id := fun heq => hout (heq ▸ List.mem_cons_self)
    rw [hget, if_neg hne] at hget'
    exact hk.left id k hget' hout
  · intro id hserved
    rw [hget]
    split
    · exact ⟨j, rfl⟩
    · exact hk.recorded id hserved
  · intro g hg hmay
    rcases List.mem_cons.1 hg with rfl | hg
    · rw [hid]
      exact hk.unserved h List.mem_cons_self (hask hmay)
    · exact hk.unserved g (List.mem_cons_of_mem h hg) hmay

/-- The holder of a job comes to rely on less. -/
theorem relax (hk : q.Kept served gone (h :: holds)) (h' : Hold) (hid : h'.id = h.id)
    (hallows : ∀ j, h.allows j → h'.allows j) (hask : h'.mayAsk = true → h.mayAsk = true) :
    q.Kept served gone (h' :: holds) := by
  obtain ⟨j, hget, hj⟩ := hk.held h List.mem_cons_self
  refine hk.move h' hid (fun i => ?_) (hallows j hj) hask
  split
  · rename_i hi
    rw [hi, hget]
  · rfl

/-- An agent is asked to serve a held job. -/
theorem serve (hk : q.Kept served gone (h :: holds)) (h' : Hold) (hmay : h.mayAsk = true)
    (hid : h'.id = h.id) (hallows : ∀ j, h.allows j → h'.allows j) (hask : h'.mayAsk = false) :
    q.Kept (served ++ [h.id]) gone (h' :: holds) := by
  have honce := List.nodup_cons.1 hk.once
  have hnot := hk.unserved h List.mem_cons_self hmay
  have hrelaxed := hk.relax h' hid hallows fun hask' => by rw [hask] at hask'; cases hask'
  -- The id is new among the served, as its holder could still ask; now no other holder has it.
  refine { hrelaxed with served_once := ?_, recorded := ?_, unserved := ?_ }
  · exact (List.perm_append_singleton h.id served).nodup_iff.2
      (List.nodup_cons.2 ⟨hnot, hk.served_once⟩)
  · intro id hserved
    rcases List.mem_append.1 hserved with hserved | hserved
    · exact hk.recorded id hserved
    · rw [List.mem_singleton.1 hserved]
      obtain ⟨j, hget, -⟩ := hk.held h List.mem_cons_self
      exact ⟨j, hget⟩
  · intro g hg hmay' hserved
    rcases List.mem_append.1 hserved with hserved | hserved
    · exact hrelaxed.unserved g hg hmay' hserved
    · rcases List.mem_cons.1 hg with rfl | hg
      · rw [hask] at hmay'
        cases hmay'
      · exact honce.1 (List.mem_singleton.1 hserved ▸ List.mem_map_of_mem hg)

/-- A job that is new comes to be held. -/
theorem accept (hk : q.Kept served gone holds) (hnew : q.get? h.id = none)
    (hget : ∀ i, q'.get? i = if i = h.id then some j else q.get? i) (hj : h.allows j) :
    q'.Kept served gone (h :: holds) := by
  have hold : ∀ {id k}, q.get? id = some k → q'.get? id = some k := by
    intro id k hk'
    have hne : id ≠ h.id := fun heq => by rw [heq, hnew] at hk'; cases hk'
    rw [hget, if_neg hne, hk']
  refine ⟨List.nodup_cons.2 ⟨?_, hk.once⟩, ?_, ?_, hk.served_once, ?_, ?_⟩
  · intro hmem
    obtain ⟨g, hg, heq⟩ := List.mem_map.1 hmem
    obtain ⟨k, hk', -⟩ := hk.held g hg
    rw [heq, hnew] at hk'
    cases hk'
  · intro g hg
    rcases List.mem_cons.1 hg with rfl | hg
    · exact ⟨j, by rw [hget, if_pos rfl], hj⟩
    · obtain ⟨k, hk', hallows⟩ := hk.held g hg
      exact ⟨k, hold hk', hallows⟩
  · intro id k hk' hout
    obtain ⟨hne, hout⟩ := List.ne_and_not_mem_of_not_mem_cons hout
    rw [hget, if_neg hne] at hk'
    exact hk.left id k hk' hout
  · intro id hserved
    obtain ⟨k, hk'⟩ := hk.recorded id hserved
    exact ⟨k, hold hk'⟩
  · intro g hg hmay hserved
    rcases List.mem_cons.1 hg with rfl | hg
    · obtain ⟨k, hk'⟩ := hk.recorded g.id hserved
      rw [hnew] at hk'
      cases hk'
    · exact hk.unserved g hg hmay hserved

/-- The holder of a job lets it go. -/
theorem release (hk : q.Kept served gone (h :: holds)) (hgone : ∀ j, h.allows j → gone j) :
    q.Kept served gone holds where
  once := (List.nodup_cons.1 hk.once).2
  held g hg := hk.held g (List.mem_cons_of_mem h hg)
  left id j hget hout := by
    by_cases hid : id = h.id
    · obtain ⟨k, hk', hallows⟩ := hk.held h List.mem_cons_self
      rw [hid, hk'] at hget
      cases hget
      exact hgone j hallows
    · exact hk.left id j hget fun hmem => (List.mem_cons.1 hmem).elim hid hout
  served_once := hk.served_once
  recorded := hk.recorded
  unserved g hg := hk.unserved g (List.mem_cons_of_mem h hg)

/-- The holder of a job moves it on to the status `next`, which it may have: that succeeds. -/
theorem advance (hk : q.Kept served gone (h :: holds)) (h' : Hold) (now : Instant)
    (next : JobStatus) {f : Job → Job} (hf : ∀ j, (f j).id = j.id) (hid : h'.id = h.id)
    (hmove : ∀ j, h.allows j → j.status.canMoveTo next = true ∧
      h'.allows (f { j with status := next, updatedAt := now }))
    (hask : h'.mayAsk = true → h.mayAsk = true) :
    (q.advance now h.id next f).1 = .ok () ∧ (q.advance now h.id next f).2.pending = q.pending ∧
      (q.advance now h.id next f).2.Kept served gone (h' :: holds) := by
  obtain ⟨j, hget, hj⟩ := hk.held h List.mem_cons_self
  obtain ⟨hcan, hj'⟩ := hmove j hj
  obtain ⟨hok, hpending, hget'⟩ := advance_of_canMoveTo now hf hget hcan
  exact ⟨hok, hpending, hk.move h' hid hget' hj' hask⟩

/-- The holder of a job brings it to the final status `next`, which succeeds, and lets it go. -/
theorem finish (hk : q.Kept served gone (h :: holds)) (now : Instant) {next : JobStatus}
    {f : Job → Job} (hf : ∀ j, (f j).id = j.id) (hstatus : ∀ j, (f j).status = j.status)
    (hmove : ∀ j, h.allows j → j.status.canMoveTo next = true) (hnext : next.isTerminal = true)
    (hgone : ∀ j, j.status.isTerminal = true → gone j) :
    (q.advance now h.id next f).1 = .ok () ∧ (q.advance now h.id next f).2.pending = q.pending ∧
      (q.advance now h.id next f).2.Kept served gone holds := by
  have hfinal (j : Job) :
      (f { j with status := next, updatedAt := now }).status.isTerminal = true := by
    rw [hstatus]
    exact hnext
  obtain ⟨hok, hpending, hkept⟩ := hk.advance (.ofFinal h.id) now next hf rfl
    (fun j hj => ⟨hmove j hj, hfinal j⟩) nofun
  exact ⟨hok, hpending, hkept.release hgone⟩

end Kept

end Queue

end InferenceFleet
