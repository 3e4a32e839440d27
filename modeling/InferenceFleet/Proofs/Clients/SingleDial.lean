import InferenceFleet.Proofs.Clients.Switchboard

/-!
# One dial for each slot

`Handed` says that calls for a node share its slot as long as the node is not evicted, and
`Answered` that a slot is filled by one dial, which its calls learn of, while a failure is for the
call that has dialled. A step of a switchboard preserves both, so calls can rely on `DialsOnce` at
any moment, whatever others do.
-/

namespace InferenceFleet

/-- The connected clients are those of the nodes whose slots hold one. -/
theorem Clients.exists_connected (c : Clients) : ∃ ids : List String, ids.Nodup ∧
    c.connected = ids.length ∧ ∀ id, id ∈ ids ↔
      ∃ slot client, c.current.get? id = some slot ∧ c.client? slot = some client := by
  refine ⟨(c.current.entries.filter fun e => (c.client? e.2).isSome).map (·.1), ?_, ?_,
    fun id => ?_⟩
  · refine List.pairwise_map.2 ((c.current.ascending.sublist List.filter_sublist).imp ?_)
    exact fun hlt heq => Std.lt_irrefl (heq ▸ hlt)
  · rw [connected, Keyed.values, List.countP_map, List.length_map, List.countP_eq_length_filter]
    rfl
  · simp only [List.mem_map, List.mem_filter, Prod.exists, exists_and_right, exists_eq_right,
      Option.isSome_iff_exists, Keyed.get?_eq_some_iff]
    exact exists_congr fun slot => exists_and_left.symm

namespace Switchboard
variable {s s' : Switchboard} {i j : Nat} {n m : Node} {stage : Stage} {slot : Slot} {id : String}
  {a : Action}

theorem isAt_arrive :
    ({ s with calls := s.calls ++ [{ node := n }] } : Switchboard).IsAt j m stage ↔
      s.IsAt j m stage ∨ j = s.calls.length ∧ m = n ∧ stage = .probing := by
  unfold IsAt
  rw [List.getElem?_append]
  by_cases hj : j < s.calls.length
  · simp [hj, Nat.ne_of_lt hj]
  · rw [if_neg hj, List.getElem?_eq_none (Nat.le_of_not_lt hj), List.getElem?_singleton]
    by_cases heq : j = s.calls.length
    · simp [heq, eq_comm]
    · have hne : ¬ j - s.calls.length = 0 := by omega
      simp [heq, hne]

/-! ### Which slots calls find -/

/-- A node's slot is the one found last until the node is evicted, and calls in between found the
same. -/
structure Shared (lookups : List Lookup) (current : Keyed Slot) : Prop where
  current : ∀ later earlier i id slot, lookups = later ++ .found i id slot :: earlier →
    .evicted id ∉ later → current.get? id = some slot
  same : ∀ later between earlier i j id slot slot',
    lookups = later ++ .found j id slot' :: (between ++ .found i id slot :: earlier) →
    .evicted id ∉ between → slot = slot'

namespace Shared
variable {lookups : List Lookup} {current current' : Keyed Slot}

theorem found (h : Shared lookups current)
    (hkeeps : ∀ i slot, current.get? i = some slot → current'.get? i = some slot)
    (hget : current'.get? id = some slot) : Shared (.found i id slot :: lookups) current' where
  current later earlier j k slot' hsplit hkept := by
    cases later with
    | nil =>
      cases hsplit
      exact hget
    | cons first later =>
      obtain ⟨rfl, hrest⟩ := List.cons.inj hsplit
      exact hkeeps k slot' (h.current later earlier j k slot' hrest fun hmem =>
        hkept (List.mem_cons_of_mem _ hmem))
  same later between earlier j j' k slot' slot'' hsplit hkept := by
    cases later with
    | nil =>
      obtain ⟨hfirst, hrest⟩ := List.cons.inj hsplit
      cases hfirst
      have hbefore := h.current between earlier j id slot' hrest hkept
      exact Option.some.inj ((hkeeps _ _ hbefore).symm.trans hget)
    | cons first later =>
      exact h.same later between earlier j j' k slot' slot'' (List.cons.inj hsplit).2 hkept

theorem evicted (h : Shared lookups current)
    (hkeeps : ∀ i slot, i ≠ id → current.get? i = some slot → current'.get? i = some slot) :
    Shared (.evicted id :: lookups) current' where
  current later earlier j k slot' hsplit hkept := by
    cases later with
    | nil => cases hsplit
    | cons first later =>
      obtain ⟨rfl, hrest⟩ := List.cons.inj hsplit
      have hne : k ≠ id := fun heq => hkept (heq ▸ List.mem_cons_self)
      exact hkeeps k slot' hne (h.current later earlier j k slot' hrest fun hmem =>
        hkept (List.mem_cons_of_mem _ hmem))
  same later between earlier j j' k slot' slot'' hsplit hkept := by
    cases later with
    | nil => cases hsplit
    | cons first later =>
      exact h.same later between earlier j j' k slot' slot'' (List.cons.inj hsplit).2 hkept

end Shared

/-- Calls have the slots that they found, each of which is for one node. -/
structure Handed (s : Switchboard) : Prop where
  clients : s.clients.Sound
  found_iff : ∀ i id slot, .found i id slot ∈ s.lookups ↔
    ∃ n stage, s.IsAt i n stage ∧ n.id = id ∧ stage.slot? = some slot
  lt : ∀ i id slot, .found i id slot ∈ s.lookups → slot < s.clients.fresh
  owner : ∀ i id j id' slot, .found i id slot ∈ s.lookups → .found j id' slot ∈ s.lookups → id = id'
  current_owner : ∀ i id id' slot, .found i id slot ∈ s.lookups →
    s.clients.current.get? id' = some slot → id = id'
  shared : Shared s.lookups s.clients.current

namespace Handed

theorem start : ({} : Switchboard).Handed where
  clients := .empty
  found_iff i id slot := ⟨nofun, fun ⟨n, stage, h, _⟩ => by cases h⟩
  lt := nofun
  owner := nofun
  current_owner := nofun
  shared :=
    { current := fun later earlier i id slot h => by cases later <;> cases h
      same := fun later between earlier i j id slot slot' h => by cases later <;> cases h }

/-- A step that finds no slot and evicts nobody. -/
theorem quiet (h : s.Handed) (hclients : s'.clients.Sound)
    (hcurrent : s'.clients.current = s.clients.current)
    (hfresh : s'.clients.fresh = s.clients.fresh) (hlookups : s'.lookups = s.lookups)
    (hslots : ∀ i n slot, (∃ stage, s'.IsAt i n stage ∧ stage.slot? = some slot) ↔
      ∃ stage, s.IsAt i n stage ∧ stage.slot? = some slot) : s'.Handed where
  clients := hclients
  found_iff i id slot := by
    rw [hlookups, h.found_iff]
    refine exists_congr fun n => ?_
    constructor <;> rintro ⟨stage, hi, hid, hslot⟩
    · obtain ⟨stage', hi', hslot'⟩ := (hslots i n slot).2 ⟨stage, hi, hslot⟩
      exact ⟨stage', hi', hid, hslot'⟩
    · obtain ⟨stage', hi', hslot'⟩ := (hslots i n slot).1 ⟨stage, hi, hslot⟩
      exact ⟨stage', hi', hid, hslot'⟩
  lt := by
    rw [hlookups, hfresh]
    exact h.lt
  owner := by
    rw [hlookups]
    exact h.owner
  current_owner := by
    rw [hlookups, hcurrent]
    exact h.current_owner
  shared := by
    rw [hlookups, hcurrent]
    exact h.shared

/-- A call that keeps its slot. -/
theorem slots_move {goal : Stage} (hi : s.IsAt i n stage) (hslot : goal.slot? = stage.slot?)
    (j : Nat) (m : Node) (slot : Slot) :
    (∃ stage, (s.move i n goal).IsAt j m stage ∧ stage.slot? = some slot) ↔
      ∃ stage, s.IsAt j m stage ∧ stage.slot? = some slot := by
  constructor
  · rintro ⟨stage', hj, hs⟩
    rcases (isAt_move hi).1 hj with ⟨rfl, rfl, rfl⟩ | ⟨-, hj⟩
    · exact ⟨stage, hi, hslot ▸ hs⟩
    · exact ⟨stage', hj, hs⟩
  · rintro ⟨stage', hj, hs⟩
    by_cases heq : j = i
    · subst heq
      obtain ⟨rfl, rfl⟩ := hi.unique hj
      exact ⟨goal, (isAt_move hi).2 (.inl ⟨rfl, rfl, rfl⟩), hslot ▸ hs⟩
    · exact ⟨stage', (isAt_move hi).2 (.inr ⟨heq, hj⟩), hs⟩

theorem found_iff_find (h : s.Handed) (hi : s.IsAt i n stage) (hnone : stage.slot? = none)
    (j : Nat) (id : String) (slot : Slot) : .found j id slot ∈ (s.find i n).lookups ↔
      ∃ m stage, (s.find i n).IsAt j m stage ∧ m.id = id ∧ stage.slot? = some slot := by
  show _ ∈ Lookup.found i n.id (s.clients.slotFor n.id).1 :: s.lookups ↔ _
  rw [List.mem_cons, h.found_iff]
  constructor
  · rintro (heq | ⟨m, stage', hj, hid, hs⟩)
    · cases heq
      exact ⟨n, _, isAt_find hi, rfl, rfl⟩
    · have hne : j ≠ i := by
        rintro rfl
        obtain ⟨rfl, rfl⟩ := hi.unique hj
        rw [hnone] at hs
        cases hs
      exact ⟨m, stage', (isAt_move hi).2 (.inr ⟨hne, hj⟩), hid, hs⟩
  · rintro ⟨m, stage', hj, hid, hs⟩
    by_cases hne : j = i
    · subst hne
      obtain ⟨rfl, rfl⟩ := (isAt_find hi).unique hj
      obtain rfl := Option.some.inj hs
      exact .inl (by rw [hid])
    · exact .inr ⟨m, stage', ((isAt_move hi).1 hj).resolve_left (fun h => hne h.1) |>.2, hid, hs⟩

/-- The slot that a call gets was found by calls for the same node only. -/
theorem id_of_found (h : s.Handed) (n : Node)
    (hmem : .found j id (s.clients.slotFor n.id).1 ∈ s.lookups) : id = n.id := by
  rcases s.clients.slotFor_cases n.id with ⟨hcurrent, -⟩ | ⟨-, hfresh, -⟩
  · exact h.current_owner _ _ _ _ hmem hcurrent
  · exact absurd (hfresh ▸ h.lt _ _ _ hmem) (Nat.lt_irrefl _)

/-- The call looks its node up: it gets the slot of the calls before it, or a new one. -/
theorem find (h : s.Handed) (hi : s.IsAt i n stage) (hnone : stage.slot? = none) :
    (s.find i n).Handed := by
  have hsound : (s.clients.slotFor n.id).2.Sound := h.clients.slotFor n.id
  have hself : (s.clients.slotFor n.id).2.current.get? n.id = some (s.clients.slotFor n.id).1 := by
    rw [Clients.current_slotFor, if_pos rfl]
  refine ⟨hsound, h.found_iff_find hi hnone, fun j id slot hmem => ?_,
    fun j id k id' slot hmem hmem' => ?_, fun j id id' slot hmem hget => ?_,
    h.shared.found (fun k slot hget => ?_) hself⟩
  · show slot < (s.clients.slotFor n.id).2.fresh
    rcases List.mem_cons.1 hmem with heq | hmem
    · cases heq
      exact hsound.current_lt _ _ hself
    · have hlt := h.lt _ _ _ hmem
      rcases s.clients.slotFor_cases n.id with ⟨-, hsame⟩ | ⟨-, -, hnew⟩
      · rw [hsame]
        exact hlt
      · rw [hnew]
        exact Nat.lt_succ_of_lt hlt
  · rcases List.mem_cons.1 hmem with heq | hmem <;> rcases List.mem_cons.1 hmem' with heq' | hmem'
    · cases heq
      cases heq'
      rfl
    · cases heq
      exact (h.id_of_found n hmem').symm
    · cases heq'
      exact h.id_of_found n hmem
    · exact h.owner _ _ _ _ _ hmem hmem'
  · have hget : (s.clients.slotFor n.id).2.current.get? id' = some slot := hget
    rcases List.mem_cons.1 hmem with heq | hmem
    · cases heq
      exact hsound.apart _ _ _ hself hget
    · rw [Clients.current_slotFor] at hget
      split at hget
      · rename_i hid
        obtain rfl := Option.some.inj hget
        exact (h.id_of_found n hmem).trans hid.symm
      · exact h.current_owner _ _ _ _ hmem hget
  · show (s.clients.slotFor n.id).2.current.get? k = some slot
    rw [Clients.current_slotFor]
    split
    · rename_i hid
      rw [hid] at hget
      rcases s.clients.slotFor_cases n.id with ⟨hcurrent, -⟩ | ⟨hempty, -, -⟩
      · rw [← hcurrent, hget]
      · rw [hempty] at hget
        cases hget
    · exact hget

theorem evict (h : s.Handed) (id : String) : ({ s with
    clients := (s.clients.evict id).2
    lookups := .evicted id :: s.lookups } : Switchboard).Handed := by
  have hmem : ∀ {j i slot}, .found j i slot ∈ .evicted id :: s.lookups →
      .found j i slot ∈ s.lookups := fun hmem => (List.mem_cons.1 hmem).resolve_left nofun
  refine ⟨h.clients.evict id, fun i id' slot => ?_, fun _ _ _ hi => h.lt _ _ _ (hmem hi),
    fun _ _ _ _ _ hi hj => h.owner _ _ _ _ _ (hmem hi) (hmem hj), fun i j k slot hi hget => ?_,
    h.shared.evicted fun i slot hne hget => ?_⟩
  · exact Iff.trans ⟨hmem, List.mem_cons_of_mem _⟩ (h.found_iff i id' slot)
  · rw [Clients.current_evict] at hget
    split at hget
    · cases hget
    · exact h.current_owner _ _ _ _ (hmem hi) hget
  · rw [Clients.current_evict, if_neg hne]
    exact hget

theorem step (h : s.Handed) (hs : s.step a = some s') : s'.Handed := by
  cases stepped_of_step hs with
  | arrive =>
    refine h.quiet h.clients rfl rfl rfl fun i n slot => exists_congr fun stage => ?_
    rw [isAt_arrive]
    refine ⟨fun ⟨hi, hslot⟩ => ⟨hi.resolve_right ?_, hslot⟩, fun ⟨hi, hslot⟩ => ⟨.inl hi, hslot⟩⟩
    rintro ⟨-, -, rfl⟩
    cases hslot
  | miss hi => exact h.quiet h.clients rfl rfl rfl (slots_move hi rfl)
  | find _ hi hnone => exact h.find hi hnone
  | begin hi => exact h.quiet h.clients rfl rfl rfl (slots_move hi rfl)
  | take hi => exact h.quiet h.clients rfl rfl rfl (slots_move hi rfl)
  | @finish i n slot result hi =>
    have hlt : slot < s.clients.fresh :=
      h.lt i n.id slot ((h.found_iff i n.id slot).2 ⟨n, _, hi, rfl, rfl⟩)
    exact h.quiet (h.clients.settle hlt _ result) (Clients.current_settle ..)
      (Clients.fresh_settle ..) rfl (slots_move hi rfl)
  | evict => exact h.evict _

end Handed

/-! ### What calls learn of dials -/

/-- A slot is filled by the only dial for it that has succeeded, and dials for it end before others
begin. Calls that got a client got the one in their slot, and those that got a failure got that of
their own dial. -/
structure Answered (s : Switchboard) : Prop where
  vacant : ∀ i n slot, s.IsAt i n (.dialling slot) → s.clients.client? slot = none
  once : ∀ i j n m slot, s.IsAt i n (.dialling slot) → s.IsAt j m (.dialling slot) → i = j
  filled : ∀ slot client, s.clients.client? slot = some client ↔
    ∃ i, ⟨i, slot, .ok client⟩ ∈ s.dials
  single : ∀ slot, s.dials.countP (·.fills slot) ≤ 1
  taken : ∀ i n slot client, s.IsAt i n (.returned slot (.ok client)) →
    s.clients.client? slot = some client
  failed : ∀ i slot fault, (∃ n, s.IsAt i n (.returned slot (.error fault))) ↔
    ⟨i, slot, .error fault⟩ ∈ s.dials

namespace Answered

theorem start : ({} : Switchboard).Answered where
  vacant _ _ _ h := by cases h
  once _ _ _ _ _ h := by cases h
  filled slot client := ⟨nofun, fun ⟨i, h⟩ => by cases h⟩
  single _ := Nat.zero_le _
  taken _ _ _ _ h := by cases h
  failed i slot fault := ⟨fun ⟨n, h⟩ => (by cases h), nofun⟩

/-- A step that ends no dial and leaves the calls where they are, or brings new ones. -/
theorem quiet (h : s.Answered) (hclient : ∀ slot, s'.clients.client? slot = s.clients.client? slot)
    (hdials : s'.dials = s.dials) (hcalls : ∀ i n stage, s'.IsAt i n stage →
      s.IsAt i n stage ∨ stage = .probing)
    (hkept : ∀ i n stage, s.IsAt i n stage → s'.IsAt i n stage) : s'.Answered where
  vacant i n slot hi := (hclient slot).trans
    (h.vacant i n slot ((hcalls i n _ hi).resolve_right nofun))
  once i j n m slot hi hj := h.once i j n m slot ((hcalls i n _ hi).resolve_right nofun)
    ((hcalls j m _ hj).resolve_right nofun)
  filled slot client := by
    rw [hclient, hdials]
    exact h.filled slot client
  single := by
    rw [hdials]
    exact h.single
  taken i n slot client hi := (hclient slot).trans
    (h.taken i n slot client ((hcalls i n _ hi).resolve_right nofun))
  failed i slot fault := by
    rw [hdials, ← h.failed]
    exact exists_congr fun n =>
      ⟨fun hi => (hcalls i n _ hi).resolve_right nofun, hkept i n _⟩

/-- A call goes on without ending a dial: it begins one only for an empty slot for which nobody
dials, and takes the client that is in its slot. -/
theorem move (h : s.Answered) {goal : Stage} (hi : s.IsAt i n stage)
    (hstage : ∀ slot result, stage ≠ .returned slot result)
    (hdialling : ∀ slot, goal = .dialling slot →
      s.clients.client? slot = none ∧ s.isDialling slot = false)
    (hreturned : ∀ slot result, goal = .returned slot result →
      ∃ client, result = .ok client ∧ s.clients.client? slot = some client) :
    (s.move i n goal).Answered where
  vacant j m slot hj := by
    rcases (isAt_move hi).1 hj with ⟨-, -, hgoal⟩ | ⟨-, hj⟩
    · exact (hdialling slot hgoal.symm).1
    · exact h.vacant j m slot hj
  once j k m m' slot hj hk := by
    have hnobody : ∀ {j m}, s.IsAt j m (.dialling slot) → goal ≠ .dialling slot := by
      intro j m hj hgoal
      have hidle := (hdialling slot hgoal).2
      rw [isDialling_iff.2 ⟨j, m, hj⟩] at hidle
      cases hidle
    rcases (isAt_move hi).1 hj with ⟨hj, -, hgoal⟩ | ⟨-, hj⟩ <;>
      rcases (isAt_move hi).1 hk with ⟨hk, -, hgoal'⟩ | ⟨-, hk⟩
    · exact hj.trans hk.symm
    · exact absurd hgoal.symm (hnobody hk)
    · exact absurd hgoal'.symm (hnobody hj)
    · exact h.once j k m m' slot hj hk
  filled := h.filled
  single := h.single
  taken j m slot client hj := by
    rcases (isAt_move hi).1 hj with ⟨-, -, hgoal⟩ | ⟨-, hj⟩
    · obtain ⟨client', heq, hclient⟩ := hreturned slot _ hgoal.symm
      cases heq
      exact hclient
    · exact h.taken j m slot client hj
  failed j slot fault := by
    refine Iff.trans ⟨?_, ?_⟩ (h.failed j slot fault)
    · rintro ⟨m, hj⟩
      rcases (isAt_move hi).1 hj with ⟨-, -, hgoal⟩ | ⟨-, hj⟩
      · obtain ⟨client, heq, -⟩ := hreturned slot _ hgoal.symm
        cases heq
      · exact ⟨m, hj⟩
    · rintro ⟨m, hj⟩
      have hne : j ≠ i := by
        rintro rfl
        obtain ⟨-, heq⟩ := hi.unique hj
        exact hstage _ _ heq.symm
      exact ⟨m, (isAt_move hi).2 (.inr ⟨hne, hj⟩)⟩

/-- No dial has filled an empty slot. -/
theorem countP_fills (h : s.Answered) (hempty : s.clients.client? slot = none) :
    s.dials.countP (·.fills slot) = 0 := by
  rw [List.countP_eq_zero]
  rintro ⟨i, slot', result⟩ hmem hfills
  cases result with
  | error fault => simp at hfills
  | ok client =>
    obtain rfl : slot' = slot := by simpa using hfills
    rw [(h.filled slot' client).2 ⟨i, hmem⟩] at hempty
    cases hempty

/-- The call learns how its own dial has ended, and nobody else does. -/
theorem failed_settle (h : s.Answered) (hi : s.IsAt i n (.dialling slot))
    (result : Except AgentFault Unit) (j : Nat) (slot' : Slot) (fault : AgentFault) :
    (∃ m, (s.settle i n slot result).IsAt j m (.returned slot' (.error fault))) ↔
      ⟨j, slot', .error fault⟩ ∈ (s.settle i n slot result).dials := by
  show _ ↔ _ ∈ (⟨i, slot, result.map fun _ => n.agentTarget⟩ : Dial) :: s.dials
  rw [List.mem_cons, ← h.failed]
  constructor
  · rintro ⟨m, hj⟩
    rcases (isAt_move hi).1 hj with ⟨rfl, -, hgoal⟩ | ⟨-, hj⟩
    · obtain ⟨rfl, hresult⟩ := Stage.returned.inj hgoal
      exact .inl (by rw [hresult])
    · exact .inr ⟨m, hj⟩
  · rintro (heq | ⟨m, hj⟩)
    · obtain ⟨rfl, rfl, hresult⟩ := Dial.mk.inj heq
      exact ⟨n, hresult ▸ isAt_settle hi result⟩
    · have hne : j ≠ i := by
        rintro rfl
        obtain ⟨-, heq⟩ := hi.unique hj
        cases heq
      exact ⟨m, (isAt_move hi).2 (.inr ⟨hne, hj⟩)⟩

theorem settle (h : s.Answered) (hi : s.IsAt i n (.dialling slot))
    (result : Except AgentFault Unit) : (s.settle i n slot result).Answered := by
  have hempty := h.vacant i n slot hi
  have hothers : ∀ {j m slot'}, (s.settle i n slot result).IsAt j m (.dialling slot') →
      j ≠ i ∧ s.IsAt j m (.dialling slot') := fun hj =>
    ((isAt_move hi).1 hj).resolve_left fun heq => by cases heq.2.2
  have honce : ∀ j k m m' slot', (s.settle i n slot result).IsAt j m (.dialling slot') →
      (s.settle i n slot result).IsAt k m' (.dialling slot') → j = k :=
    fun j k m m' slot' hj hk => h.once j k m m' slot' (hothers hj).2 (hothers hk).2
  cases result with
  | error fault =>
    refine ⟨fun j m slot' hj => h.vacant j m slot' (hothers hj).2, honce,
      fun slot' client => ?_, fun slot' => ?_, fun j m slot' client hj => ?_,
      h.failed_settle hi (.error fault)⟩
    · refine (h.filled slot' client).trans (exists_congr fun j => ?_)
      exact ⟨List.mem_cons_of_mem _, fun hmem => (List.mem_cons.1 hmem).resolve_left nofun⟩
    · show List.countP _ ((⟨i, slot, .error fault⟩ : Dial) :: s.dials) ≤ 1
      rw [List.countP_cons_of_neg (by simp)]
      exact h.single slot'
    · rcases (isAt_move hi).1 hj with ⟨-, -, hgoal⟩ | ⟨-, hj⟩
      · cases hgoal
      · exact h.taken j m slot' client hj
  | ok _ =>
    have hclient : ∀ slot', (s.settle i n slot (.ok ())).clients.client? slot' =
        if slot' = slot then some n.agentTarget else s.clients.client? slot' :=
      Clients.client?_settle_ok hempty n.agentTarget
    have hkept : ∀ {slot' client}, s.clients.client? slot' = some client →
        (s.settle i n slot (.ok ())).clients.client? slot' = some client := by
      intro slot' client hold
      have hne : slot' ≠ slot := fun heq => by rw [heq, hempty] at hold; cases hold
      rw [hclient, if_neg hne, hold]
    refine ⟨fun j m slot' hj => ?_, honce, fun slot' client => ?_, fun slot' => ?_,
      fun j m slot' client hj => ?_, h.failed_settle hi (.ok ())⟩
    · obtain ⟨hne, hj⟩ := hothers hj
      have hapart : slot' ≠ slot := fun heq => hne (h.once j i m n slot (heq ▸ hj) hi)
      rw [hclient, if_neg hapart]
      exact h.vacant j m slot' hj
    · show _ ↔ ∃ j, _ ∈ (⟨i, slot, .ok n.agentTarget⟩ : Dial) :: s.dials
      constructor
      · intro hfilled
        rw [hclient] at hfilled
        split at hfilled
        · rename_i heq
          cases hfilled
          exact ⟨i, heq ▸ List.mem_cons_self⟩
        · obtain ⟨j, hmem⟩ := (h.filled slot' client).1 hfilled
          exact ⟨j, List.mem_cons_of_mem _ hmem⟩
      · rintro ⟨j, hmem⟩
        rcases List.mem_cons.1 hmem with heq | hmem
        · cases heq
          rw [hclient, if_pos rfl]
        · exact hkept ((h.filled slot' client).2 ⟨j, hmem⟩)
    · show List.countP _ ((⟨i, slot, .ok n.agentTarget⟩ : Dial) :: s.dials) ≤ 1
      by_cases heq : slot' = slot
      · subst heq
        rw [List.countP_cons, h.countP_fills hempty]
        split <;> omega
      · rw [List.countP_cons_of_neg (by simp [Ne.symm heq])]
        exact h.single slot'
    · rcases (isAt_move hi).1 hj with ⟨-, -, hgoal⟩ | ⟨-, hj⟩
      · cases hgoal
        rw [hclient, if_pos rfl]
      · exact hkept (h.taken j m slot' client hj)

theorem step (h : s.Answered) (hs : s.step a = some s') : s'.Answered := by
  cases stepped_of_step hs with
  | arrive =>
    refine h.quiet (fun _ => rfl) rfl (fun i n stage hi => ?_) fun i n stage hi => ?_
    · exact (isAt_arrive.1 hi).imp_right fun hnew => hnew.2.2
    · exact isAt_arrive.2 (.inl hi)
  | miss hi => exact h.move hi nofun nofun nofun
  | @find a i n stage _ hi hnone =>
    have hmoved : (s.move i n (.waiting (s.clients.slotFor n.id).1)).Answered :=
      h.move hi (fun slot result hstage => by rw [hstage] at hnone; cases hnone) nofun nofun
    exact hmoved.quiet (s.clients.client?_slotFor n.id) rfl (fun _ _ _ => .inl) fun _ _ _ => id
  | begin hi hempty hidle =>
    refine h.move hi nofun (fun slot' hgoal => ?_) nofun
    cases hgoal
    exact ⟨hempty, hidle⟩
  | take hi hfilled =>
    refine h.move hi nofun nofun fun slot' result hgoal => ?_
    cases hgoal
    exact ⟨_, rfl, hfilled⟩
  | finish hi => exact h.settle hi _
  | evict => exact h.quiet (fun _ => rfl) rfl (fun _ _ _ => .inl) fun _ _ _ => id

end Answered

/-! ### A slot that is in the map no more -/

/-- The slot has been handed out, and no node has it. -/
structure Detached (s : Switchboard) (slot : Slot) : Prop where
  lt : slot < s.clients.fresh
  gone : ∀ id, s.clients.current.get? id ≠ some slot

theorem Detached.step (h : s.Detached slot) (hs : s.step a = some s') : s'.Detached slot := by
  have hsame : ∀ {s' : Switchboard}, s'.clients.current = s.clients.current →
      s'.clients.fresh = s.clients.fresh → s'.Detached slot := fun hcurrent hfresh =>
    ⟨hfresh ▸ h.lt, hcurrent ▸ h.gone⟩
  cases stepped_of_step hs with
  | arrive => exact hsame rfl rfl
  | miss => exact hsame rfl rfl
  | @find a i n stage =>
    rcases s.clients.slotFor_cases n.id with ⟨-, hclients⟩ | ⟨-, hfresh, hclients⟩
    · exact hsame (congrArg Clients.current hclients) (congrArg Clients.fresh hclients)
    · constructor
      · show slot < (s.clients.slotFor n.id).2.fresh
        rw [hclients]
        exact Nat.lt_succ_of_lt h.lt
      · intro id
        show (s.clients.slotFor n.id).2.current.get? id ≠ some slot
        rw [Clients.current_slotFor, hfresh]
        split
        · exact fun heq => Nat.ne_of_gt h.lt (Option.some.inj heq)
        · exact h.gone id
  | begin => exact hsame rfl rfl
  | take => exact hsame rfl rfl
  | finish => exact hsame (Clients.current_settle ..) (Clients.fresh_settle ..)
  | evict =>
    refine ⟨h.lt, fun id => ?_⟩
    rw [Clients.current_evict]
    split
    · exact nofun
    · exact h.gone id

/-! ### What calls can rely on -/

/-- A call can take a step unless it has returned or waits for a dial for its own node. -/
theorem Handed.progress (h : s.Handed) (hi : s.IsAt i n stage) :
    (∃ slot result, stage = .returned slot result) ∨
      (∃ a, a.call? = some i ∧ (s.step a).isSome = true) ∨
      ∃ slot j m, stage = .waiting slot ∧ s.IsAt j m (.dialling slot) ∧ m.id = n.id := by
  cases stage with
  | probing => exact .inr (.inl ⟨.probe i, rfl, by rw [step_probe hi]; rfl⟩)
  | inserting => exact .inr (.inl ⟨.insert i, rfl, by rw [step_insert hi]; rfl⟩)
  | waiting slot =>
    cases hfilled : s.clients.client? slot with
    | some client => exact .inr (.inl ⟨.take i, rfl, by rw [step_take hi hfilled]; rfl⟩)
    | none =>
      cases hidle : s.isDialling slot with
      | false => exact .inr (.inl ⟨.begin i, rfl, by rw [step_begin hi hfilled hidle]; rfl⟩)
      | true =>
        obtain ⟨j, m, hj⟩ := isDialling_iff.1 hidle
        have hfound := (h.found_iff i n.id slot).2 ⟨n, _, hi, rfl, rfl⟩
        have hfound' := (h.found_iff j m.id slot).2 ⟨m, _, hj, rfl, rfl⟩
        exact .inr (.inr ⟨slot, j, m, rfl, hj, h.owner _ _ _ _ _ hfound' hfound⟩)
  | dialling slot =>
    exact .inr (.inl ⟨.finish i (.ok ()), rfl, by rw [step_finish hi]; rfl⟩)
  | returned slot result => exact .inl ⟨slot, result, rfl⟩

/-- A dial fails: nothing changes but for its call, and who waits at the slot can dial. -/
theorem Answered.retry (h : s.Answered) (hi : s.IsAt i n (.dialling slot)) (fault : AgentFault) :
    let t := s.settle i n slot (.error fault)
    t.clients = s.clients ∧ (∀ j m stage, j ≠ i → (t.IsAt j m stage ↔ s.IsAt j m stage)) ∧
      ∀ j m, t.IsAt j m (.waiting slot) → (t.step (.begin j)).isSome = true := by
  intro t
  have hothers : ∀ j m stage, j ≠ i → (t.IsAt j m stage ↔ s.IsAt j m stage) := by
    intro j m stage hne
    refine (isAt_move hi).trans ⟨fun hj => ?_, fun hj => .inr ⟨hne, hj⟩⟩
    exact (hj.resolve_left fun heq => hne heq.1).2
  refine ⟨rfl, hothers, fun j m hj => ?_⟩
  have hidle : t.isDialling slot = false := by
    rw [Bool.eq_false_iff, ne_eq, isDialling_iff]
    rintro ⟨k, m', hk⟩
    by_cases heq : k = i
    · subst heq
      obtain ⟨-, hstage⟩ := (isAt_settle hi (.error fault)).unique hk
      cases hstage
    · exact heq (h.once k i m' n slot ((hothers k m' _ heq).1 hk) hi)
  rw [step_begin hj (h.vacant i n slot hi) hidle]
  rfl

/-- What the calls for clients can rely on at a moment. -/
structure DialsOnce (s : Switchboard) : Prop where
  /-- A call has the slot that it found. -/
  slots : ∀ i id slot, .found i id slot ∈ s.lookups ↔
    ∃ n stage, s.IsAt i n stage ∧ n.id = id ∧ stage.slot? = some slot
  /-- Calls for a node find the same slot as long as the node is not evicted. -/
  shared : ∀ later between earlier i j id slot slot',
    s.lookups = later ++ .found j id slot' :: (between ++ .found i id slot :: earlier) →
    .evicted id ∉ between → slot = slot'
  /-- One dial for a slot succeeds at most, -/
  single : ∀ slot, s.dials.countP (·.fills slot) ≤ 1
  /-- and one is in progress at most, for an empty slot only. -/
  exclusive : ∀ i n slot, s.IsAt i n (.dialling slot) → s.clients.client? slot = none ∧
    ∀ j m, s.IsAt j m (.dialling slot) → i = j
  /-- Calls that get a client through a slot get that of the dial which has filled it. -/
  client : ∀ i n slot client, s.IsAt i n (.returned slot (.ok client)) →
    (∃ j, ⟨j, slot, .ok client⟩ ∈ s.dials) ∧
      ∀ j m other, s.IsAt j m (.returned slot (.ok other)) → other = client
  /-- A call is told of the failure of its own dial, and of no other. -/
  failure : ∀ i slot fault, (∃ n, s.IsAt i n (.returned slot (.error fault))) ↔
    ⟨i, slot, .error fault⟩ ∈ s.dials
  /-- A dial that fails changes nothing but for its call, and whoever waits at the slot can dial. -/
  retry : ∀ i n slot fault t, s.IsAt i n (.dialling slot) →
    s.step (.finish i (.error fault)) = some t → t.clients = s.clients ∧
      (∀ j m stage, j ≠ i → (t.IsAt j m stage ↔ s.IsAt j m stage)) ∧
      ∀ j m, t.IsAt j m (.waiting slot) → (t.step (.begin j)).isSome = true
  /-- A call that waits at an empty slot can dial if nobody else does. -/
  dial : ∀ i n slot, s.IsAt i n (.waiting slot) → s.clients.client? slot = none →
    (∀ j m, ¬ s.IsAt j m (.dialling slot)) → (s.step (.begin i)).isSome = true
  /-- A dial can end at any time, -/
  ending : ∀ i n slot result, s.IsAt i n (.dialling slot) →
    (s.step (.finish i result)).isSome = true
  /-- and a call that has not returned waits for no dial but one for its own node. -/
  progress : ∀ i n stage, s.IsAt i n stage → (∃ slot result, stage = .returned slot result) ∨
    (∃ a, a.call? = some i ∧ (s.step a).isSome = true) ∨
    ∃ slot j m, stage = .waiting slot ∧ s.IsAt j m (.dialling slot) ∧ m.id = n.id
  /-- The end of a dial puts no slot into the map, -/
  map : ∀ i result t, s.step (.finish i result) = some t → t.clients.current = s.clients.current
  /-- and a slot that is in the map no more does not come back. -/
  evicted : ∀ i id slot, .found i id slot ∈ s.lookups →
    (∀ id', s.clients.current.get? id' ≠ some slot) →
    ∀ more id', (s.run more).clients.current.get? id' ≠ some slot
  /-- The nodes whose slots hold a client are counted, each once. -/
  connected : ∃ ids : List String, ids.Nodup ∧ s.clients.connected = ids.length ∧
    ∀ id, id ∈ ids ↔ ∃ slot client,
      s.clients.current.get? id = some slot ∧ s.clients.client? slot = some client

/-- However many calls there are, for any nodes, and however their steps, the ends of their dials
and evictions are mixed. -/
theorem dials_once (actions : List Action) : (({} : Switchboard).run actions).DialsOnce := by
  generalize hs : ({} : Switchboard).run actions = s
  have handed : s.Handed := hs ▸ run_induction (fun _ _ _ h => h.step) .start actions
  have answered : s.Answered := hs ▸ run_induction (fun _ _ _ h => h.step) .start actions
  refine ⟨handed.found_iff, handed.shared.same, answered.single,
    fun i n slot hi => ⟨answered.vacant i n slot hi, fun j m => answered.once i j n m slot hi⟩,
    fun i n slot client hi => ?_, answered.failed, fun i n slot fault t hi ht => ?_,
    fun i n slot hi hempty hidle => ?_, fun i n slot result hi => by rw [step_finish hi]; rfl,
    fun i n stage hi => handed.progress hi, fun i result t ht => ?_,
    fun i id slot hmem hgone more => ?_, s.clients.exists_connected⟩
  · have hfilled := answered.taken i n slot client hi
    refine ⟨(answered.filled slot client).1 hfilled, fun j m other hj => ?_⟩
    exact Option.some.inj ((answered.taken j m slot other hj).symm.trans hfilled)
  · obtain rfl := Option.some.inj ((step_finish hi _).symm.trans ht)
    exact answered.retry hi fault
  · have hnobody : s.isDialling slot = false := by
      rw [Bool.eq_false_iff, ne_eq, isDialling_iff]
      exact fun ⟨j, m, hj⟩ => hidle j m hj
    rw [step_begin hi hempty hnobody]
    rfl
  · cases stepped_of_step ht with
    | find h => rcases h with h | h <;> cases h
    | finish => exact Clients.current_settle ..
  · have hdetached : s.Detached slot := ⟨handed.lt i id slot hmem, hgone⟩
    have hafter := run_induction (P := fun t => t.Detached slot) (fun _ _ _ h => h.step) hdetached
      more
    exact hafter.gone

/-- Two calls find a slot, the dial of the first fails, and the node is evicted while the second
dials; a third call finds another slot. -/
theorem dials_once_evicted :
    let n : Node := { id := "n", hostname := "h" }
    let fault : AgentFault := .connect "refused"
    let s := ({} : Switchboard).run [.arrive n, .arrive n, .probe 0, .probe 1, .insert 0, .insert 1,
      .begin 0, .begin 1, .finish 0 (.error fault), .begin 1, .evict "n", .arrive n, .probe 2,
      .insert 2, .finish 1 (.ok ()), .begin 2, .finish 2 (.ok ())]
    s.calls = [⟨n, .returned 0 (.error fault)⟩, ⟨n, .returned 0 (.ok "h:50052")⟩,
        ⟨n, .returned 1 (.ok "h:50052")⟩] ∧
      s.clients.connected = 1 ∧ s.dials.countP (·.fills 0) ≤ 1 ∧
      ∀ more id, (s.run more).clients.current.get? id ≠ some 0 := by
  intro n fault s
  have hcurrent : s.clients.current = Keyed.empty.insert "n" 1 := by decide +kernel
  have hfound : .found 1 "n" 0 ∈ s.lookups := by decide +kernel
  have honce : s.DialsOnce := dials_once _
  refine ⟨by decide +kernel, by decide +kernel, honce.single 0,
    honce.evicted 1 "n" 0 hfound fun id => ?_⟩
  rw [hcurrent, Keyed.get?_insert]
  split <;> exact nofun

end Switchboard

end InferenceFleet
