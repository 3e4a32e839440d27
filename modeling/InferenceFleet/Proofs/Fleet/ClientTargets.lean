import InferenceFleet.Proofs.Fleet.Sections
import Mathlib.Data.List.Induction
import Mathlib.Data.List.Infix
import Mathlib.Data.List.Perm.Basic

/-!
# At which target a node's client is

A dispatch keeps the node that it has selected. If the node is registered elsewhere meanwhile, the
client that the dispatch dials is one for the old target, and it stays. So a client was dialled at
some target that its node had (`Traffic.Tracked`), and it is at the present one as long as changes
of a node and other operations on it stay apart (`Traffic.Tuned`).
-/

namespace InferenceFleet

/-! ### Every client was dialled at a target of its node -/

namespace Operation

/-- The operation's node had its target at some time, as `seen` says, and its slot is nobody
else's. -/
def IsSeen (seen : String → String → Prop) (c : Clients) : Operation → Prop
  | .seeking n => seen n.id n.agentTarget
  | .dialling n slot => seen n.id n.agentTarget ∧ slot < c.fresh ∧
      ∀ id, c.current.get? id = some slot → id = n.id
  | _ => True

theorem IsSeen.mono {seen : String → String → Prop} {c c' : Clients} {o : Operation}
    (h : o.IsSeen seen c) (hfresh : c.fresh ≤ c'.fresh)
    (hold : ∀ id slot, slot < c.fresh → c'.current.get? id = some slot →
      c.current.get? id = some slot) : o.IsSeen seen c' := by
  cases o with
  | seeking n => exact h
  | dialling n slot =>
    obtain ⟨hseen, hlt, honly⟩ := h
    exact ⟨hseen, Nat.lt_of_lt_of_le hlt hfresh, fun id hid => honly id (hold id slot hlt hid)⟩
  | evicting n => trivial
  | storing n => trivial
  | sweeping timeout ids => trivial
  | dropping timeout id ids => trivial

end Operation

/-- Each client, and each node that a dispatch keeps, is at a target that `seen` has for its id. -/
structure Traffic.Tracked (seen : String → String → Prop) (f : Fleet) (ops : List Operation) :
    Prop where
  named : f.registry.Named
  sound : f.clients.Sound
  ops : ∀ o ∈ ops, o.IsSeen seen f.clients
  cached : ∀ id target, f.clients.lookup? id = some target → seen id target

namespace Traffic
variable {seen : String → String → Prop} {f f' : Fleet} {ops rest : List Operation}
  {o : Operation} {left : Option Operation} {now : Instant} {dial : Except AgentFault Unit}

namespace Tracked

theorem perm (h : Tracked seen f ops) (hp : ops.Perm rest) : Tracked seen f rest :=
  ⟨h.named, h.sound, fun o ho => h.ops o (hp.mem_iff.2 ho), h.cached⟩

theorem cons (h : Tracked seen f ops) (ho : o.IsSeen seen f.clients) :
    Tracked seen f (o :: ops) :=
  ⟨h.named, h.sound, List.forall_mem_cons.2 ⟨ho, h.ops⟩, h.cached⟩

theorem tail (h : Tracked seen f (o :: rest)) : Tracked seen f rest :=
  ⟨h.named, h.sound, fun p hp => h.ops p (List.mem_cons_of_mem o hp), h.cached⟩

theorem evict (h : Tracked seen f ops) (id : String) :
    Tracked seen { f with clients := (f.clients.evict id).2 } ops := by
  refine ⟨h.named, h.sound.evict id, fun o ho => ?_, fun i target hi => ?_⟩
  · refine (h.ops o ho).mono (Nat.le_refl _) fun i slot _ hi => ?_
    rw [Clients.current_evict] at hi
    split at hi
    · cases hi
    · exact hi
  · rw [Clients.lookup?_evict] at hi
    split at hi
    · cases hi
    · exact h.cached i target hi

theorem seek (h : Tracked seen f ops) {n : Node} (hn : seen n.id n.agentTarget) :
    Tracked seen { f with clients := (f.clients.slotFor n.id).2 }
      (.dialling n (f.clients.slotFor n.id).1 :: ops) := by
  have hsound := h.sound.slotFor n.id
  have hcurrent := f.clients.current_slotFor n.id
  have hmine : (f.clients.slotFor n.id).2.current.get? n.id = some (f.clients.slotFor n.id).1 := by
    rw [hcurrent, if_pos rfl]
  refine cons ⟨h.named, hsound, fun o ho => ?_, fun i target hi => ?_⟩
    ⟨hn, hsound.current_lt _ _ hmine, fun id hid => hsound.apart _ _ _ hid hmine⟩
  · rcases f.clients.slotFor_cases n.id with ⟨-, hsame⟩ | ⟨-, hslot, hnew⟩
    · rw [hsame]
      exact h.ops o ho
    · refine (h.ops o ho).mono (by rw [hnew]; exact Nat.le_succ _) fun i slot hlt hi => ?_
      rw [hcurrent, hslot] at hi
      split at hi
      · cases hi
        exact absurd hlt (Nat.lt_irrefl _)
      · exact hi
  · rw [h.sound.lookup?_slotFor] at hi
    exact h.cached i target hi

theorem settle (h : Tracked seen f ops) {n : Node} {slot : Slot}
    (ho : (Operation.dialling n slot).IsSeen seen f.clients) :
    Tracked seen (f.connect slot n.agentTarget dial).2 ops := by
  obtain ⟨hseen, hlt, honly⟩ := ho
  refine ⟨?_, ?_, fun o ho => ?_, fun i target hi => ?_⟩
  · rw [Fleet.connect_registry]
    exact h.named
  · rw [Fleet.connect_clients]
    exact h.sound.settle hlt _ _
  · rw [Fleet.connect_clients]
    refine (h.ops o ho).mono (Nat.le_of_eq (Clients.fresh_settle ..).symm) fun i s _ hi => ?_
    rw [Clients.current_settle] at hi
    exact hi
  · rw [Fleet.connect_clients] at hi
    rcases Clients.lookup?_of_settle hi with hold | ⟨hslot, rfl⟩
    · exact h.cached i target hold
    · rw [honly i hslot]
      exact hseen

/-- An operation takes a section. -/
theorem next (h : Tracked seen f (o :: rest)) (hnext : o.next f now dial = (f', left)) :
    Tracked seen f' (left.toList ++ rest) := by
  have ho := h.ops o List.mem_cons_self
  have hrest := h.tail
  cases o with
  | evicting n =>
    cases hnext
    exact (hrest.evict n.id).cons trivial
  | storing n =>
    cases hnext
    exact { hrest with named := h.named.register now n }
  | seeking n =>
    cases hnext
    exact hrest.seek ho
  | dialling n slot =>
    cases hnext
    exact hrest.settle ho
  | sweeping timeout ids =>
    cases ids with
    | nil =>
      cases hnext
      exact hrest
    | cons id ids =>
      simp only [Operation.next] at hnext
      split at hnext <;> cases hnext
      · rename_i hremoved
        exact cons { hrest with named := h.named.removeIfStale hremoved } trivial
      · exact hrest.cons trivial
  | dropping timeout id ids =>
    cases hnext
    exact (hrest.evict id).cons trivial

end Tracked

/-- A step adds an operation, or an operation takes a section, or nothing happens. -/
theorem step_cases (s : Traffic) (x : Section) : s.step x = s ∨
    (∃ o, s.step x = { s with inFlight := s.inFlight ++ [o] } ∧
      ((∃ n, o = .ofRegister s.fleet.registry n) ∨
        (∃ n model, o = .seeking n ∧ s.fleet.registry.select model = .ok n) ∨
        ∃ timeout ids, o = .sweeping timeout ids)) ∨
    ∃ o rest now dial, s.inFlight.Perm (o :: rest) ∧
      s.step x = ⟨(o.next s.fleet now dial).1, (o.next s.fleet now dial).2.toList ++ rest⟩ := by
  cases x with
  | register n =>
    simp only [step]
    split
    · exact .inl rfl
    · exact .inr (.inl ⟨_, rfl, .inl ⟨n, rfl⟩⟩)
  | select model =>
    simp only [step]
    split
    · rename_i n hselect
      exact .inr (.inl ⟨_, rfl, .inr (.inl ⟨n, model, rfl, hselect⟩)⟩)
    · exact .inl rfl
  | scan now timeout => exact .inr (.inl ⟨_, rfl, .inr (.inr ⟨timeout, _, rfl⟩)⟩)
  | next index now dial =>
    simp only [step]
    split
    · rename_i o ho
      obtain ⟨hindex, rfl⟩ := List.getElem?_eq_some_iff.1 ho
      exact .inr (.inr ⟨_, _, now, dial, (List.getElem_cons_eraseIdx_perm hindex).symm, rfl⟩)
    · exact .inl rfl

theorem Tracked.step {s : Traffic} (h : Tracked seen s.fleet s.inFlight)
    (hseen : ∀ id target, s.fleet.registry.target? id = some target → seen id target)
    (x : Section) : Tracked seen (s.step x).fleet (s.step x).inFlight := by
  rcases s.step_cases x with hsame | ⟨o, hstep, ho⟩ | ⟨o, rest, now, dial, hperm, hstep⟩
  · rw [hsame]
    exact h
  · rw [hstep]
    refine (h.cons ?_).perm (List.perm_append_singleton o s.inFlight).symm
    rcases ho with ⟨n, rfl⟩ | ⟨n, model, rfl, hselect⟩ | ⟨timeout, ids, rfl⟩
    · rcases ofRegister_cases s.fleet n with ⟨ho, -⟩ | ⟨ho, -⟩ <;> rw [ho] <;> trivial
    · exact hseen _ _ (Registry.target?_of_get? (Registry.select_ok h.named hselect).1)
    · trivial
  · rw [hstep]
    exact (h.perm hperm).next rfl

theorem tracked_run (limit : Nat) (sections : List Section) (seen : String → String → Prop)
    (hseen : ∀ early, early <+: sections → ∀ id target,
      ((start limit).run early).fleet.registry.target? id = some target → seen id target) :
    Tracked seen ((start limit).run sections).fleet ((start limit).run sections).inFlight := by
  induction sections using List.reverseRecOn with
  | nil =>
    exact ⟨fun _ _ h => (by cases h), .empty, fun _ h => (by cases h), fun _ _ h => (by cases h)⟩
  | append_singleton sections x ih =>
    rw [run_append]
    exact (ih fun early h => hseen early (h.trans (List.prefix_append ..))).step
      (hseen sections (List.prefix_append ..)) x

end Traffic

/-! ### Operations that stay apart -/

namespace Operation

/-- The operation is right about its node. -/
def Agrees (f : Fleet) : Operation → Prop
  | .storing n =>
    f.registry.target? n.id = some n.agentTarget ∨ f.clients.current.get? n.id = none
  | .seeking n => f.registry.target? n.id = some n.agentTarget
  | .dialling n slot =>
    f.registry.target? n.id = some n.agentTarget ∧ f.clients.current.get? n.id = some slot
  | .dropping _ id _ => f.registry.target? id = none
  | _ => True

theorem Agrees.congr {f f' : Fleet} {o : Operation} (h : o.Agrees f)
    (hsame : ∀ id, o.node? = some id → f'.registry.target? id = f.registry.target? id ∧
      f'.clients.current.get? id = f.clients.current.get? id) : o.Agrees f' := by
  cases o with
  | evicting n => trivial
  | storing n =>
    obtain ⟨htarget, hcurrent⟩ := hsame n.id rfl
    rw [Agrees, htarget, hcurrent]
    exact h
  | seeking n =>
    rw [Agrees, (hsame n.id rfl).1]
    exact h
  | dialling n slot =>
    obtain ⟨htarget, hcurrent⟩ := hsame n.id rfl
    rw [Agrees, htarget, hcurrent]
    exact h
  | sweeping timeout ids => trivial
  | dropping timeout id ids =>
    rw [Agrees, (hsame id rfl).1]
    exact h

/-- The operation has removed the node `id` and is to drop its client. -/
def Drops (id : String) : Operation → Prop
  | .dropping _ i _ => i = id
  | _ => False

theorem node?_of_drops {o : Operation} {id : String} (h : o.Drops id) : o.node? = some id := by
  cases o with
  | dropping timeout i ids => exact congrArg some h
  | evicting n => exact h.elim
  | storing n => exact h.elim
  | seeking n => exact h.elim
  | dialling n slot => exact h.elim
  | sweeping timeout ids => exact h.elim

end Operation

namespace Traffic

/-- Every client of a registered node is at the node's target, and only the sweep that has removed a
node leaves a client behind. -/
structure Tuned (f : Fleet) (ops : List Operation) : Prop where
  agree : ∀ o ∈ ops, o.Agrees f
  cached : ∀ id target client, f.registry.target? id = some target →
    f.clients.lookup? id = some client → client = target
  removed : ∀ id, f.registry.target? id = none →
    f.clients.current.get? id = none ∨ ∃ o ∈ ops, o.Drops id

namespace Tuned
variable {f f' : Fleet} {ops rest : List Operation} {o : Operation} {left : Option Operation}
  {now : Instant} {dial : Except AgentFault Unit} {n : Node}

theorem perm (h : Tuned f ops) (hp : ops.Perm rest) : Tuned f rest := by
  refine ⟨fun o ho => h.agree o (hp.mem_iff.2 ho), h.cached, fun id hid => ?_⟩
  rcases h.removed id hid with hnone | ⟨o, ho, hdrops⟩
  · exact .inl hnone
  · exact .inr ⟨o, hp.mem_iff.1 ho, hdrops⟩

theorem cons (h : Tuned f ops) (ho : o.Agrees f) : Tuned f (o :: ops) := by
  refine ⟨List.forall_mem_cons.2 ⟨ho, h.agree⟩, h.cached, fun id hid => ?_⟩
  rcases h.removed id hid with hnone | ⟨p, hp, hdrops⟩
  · exact .inl hnone
  · exact .inr ⟨p, List.mem_cons_of_mem o hp, hdrops⟩

theorem removed_rest (h : Tuned f (o :: rest)) {id : String} (ho : ¬ o.Drops id)
    (hid : f.registry.target? id = none) :
    f.clients.current.get? id = none ∨ ∃ p ∈ rest, p.Drops id := by
  rcases h.removed id hid with hnone | ⟨p, hp, hdrops⟩
  · exact .inl hnone
  · rcases List.mem_cons.1 hp with rfl | hp
    · exact absurd hdrops ho
    · exact .inr ⟨p, hp, hdrops⟩

theorem tail (h : Tuned f (o :: rest)) (ho : ∀ id, ¬ o.Drops id) : Tuned f rest :=
  ⟨fun p hp => h.agree p (List.mem_cons_of_mem o hp), h.cached, fun id => h.removed_rest (ho id)⟩

theorem evict (h : Tuned f ops) {id : String} (hnode : ∀ p ∈ ops, p.node? ≠ some id) :
    Tuned { f with clients := (f.clients.evict id).2 } ops := by
  refine ⟨fun p hp => (h.agree p hp).congr fun i hi => ⟨rfl, ?_⟩, fun i target client hi hc => ?_,
    fun i hi => ?_⟩
  · have hne : i ≠ id := fun heq => hnode p hp (heq ▸ hi)
    rw [Clients.current_evict, if_neg hne]
  · rw [Clients.lookup?_evict] at hc
    split at hc
    · cases hc
    · exact h.cached i target client hi hc
  · rw [Clients.current_evict]
    split
    · exact .inl rfl
    · exact h.removed i hi

theorem store (h : Tuned f (.storing n :: rest)) (hnode : ∀ p ∈ rest, p.node? ≠ some n.id) :
    Tuned { f with registry := f.registry.register now n } rest := by
  have htarget := f.registry.target?_register now n
  refine ⟨fun p hp => (h.agree p (List.mem_cons_of_mem _ hp)).congr fun i hi => ⟨?_, rfl⟩,
    fun i target client hi hc => ?_, fun i hi => ?_⟩
  · have hne : i ≠ n.id := fun heq => hnode p hp (heq ▸ hi)
    rw [htarget, if_neg hne]
  · rw [htarget] at hi
    split at hi
    · rename_i heq
      cases hi
      rw [heq] at hc
      rcases h.agree _ List.mem_cons_self with hsame | hnone
      · exact h.cached n.id _ client hsame hc
      · rw [Clients.lookup?, hnone] at hc
        cases hc
    · exact h.cached i target client hi hc
  · rw [htarget] at hi
    split at hi
    · cases hi
    · exact h.removed_rest not_false hi

theorem seek (h : Tuned f (.seeking n :: rest)) (hsound : f.clients.Sound)
    (hrest : ∀ p ∈ rest, (Operation.seeking n).Compatible p) :
    Tuned { f with clients := (f.clients.slotFor n.id).2 }
      (.dialling n (f.clients.slotFor n.id).1 :: rest) := by
  have htarget : f.registry.target? n.id = some n.agentTarget := h.agree _ List.mem_cons_self
  have hcurrent := f.clients.current_slotFor n.id
  have hmine : (f.clients.slotFor n.id).2.current.get? n.id = some (f.clients.slotFor n.id).1 := by
    rw [hcurrent, if_pos rfl]
  refine ⟨List.forall_mem_cons.2 ⟨⟨htarget, hmine⟩, fun p hp => ?_⟩,
    fun i target client hi hc => ?_, fun i hi => ?_⟩
  · have hagrees := h.agree p (List.mem_cons_of_mem _ hp)
    by_cases hnode : p.node? = some n.id
    · have hchange := (hrest p hp n.id rfl hnode).2
      cases p with
      | seeking m => exact hagrees
      | dialling m slot =>
        obtain ⟨hm, hslot⟩ := hagrees
        have hid : m.id = n.id := Option.some.inj hnode
        rw [hid] at hslot
        rcases f.clients.slotFor_cases n.id with ⟨-, hsame⟩ | ⟨hnone, -⟩
        · refine ⟨hm, ?_⟩
          show (f.clients.slotFor n.id).2.current.get? m.id = some slot
          rw [hsame, hid, hslot]
        · rw [hslot] at hnone
          cases hnone
      | evicting m => cases hchange
      | storing m => cases hchange
      | dropping timeout id ids => cases hchange
      | sweeping timeout ids => trivial
    · refine hagrees.congr fun i hi => ⟨rfl, ?_⟩
      have hne : i ≠ n.id := fun heq => hnode (heq ▸ hi)
      rw [hcurrent, if_neg hne]
  · rw [hsound.lookup?_slotFor] at hc
    exact h.cached i target client hi hc
  · have hne : i ≠ n.id := fun heq => by rw [heq] at hi; cases htarget.symm.trans hi
    rw [hcurrent, if_neg hne]
    rcases h.removed_rest not_false hi with hnone | ⟨p, hp, hdrops⟩
    · exact .inl hnone
    · exact .inr ⟨p, List.mem_cons_of_mem _ hp, hdrops⟩

theorem settle {slot : Slot} (h : Tuned f (.dialling n slot :: rest)) (hsound : f.clients.Sound) :
    Tuned (f.connect slot n.agentTarget dial).2 rest := by
  obtain ⟨htarget, hslot⟩ := h.agree _ List.mem_cons_self
  have hregistry := f.connect_registry slot n.agentTarget dial
  have hclients := f.connect_clients slot n.agentTarget dial
  refine ⟨fun p hp => (h.agree p (List.mem_cons_of_mem _ hp)).congr fun i _ => ?_,
    fun i target client hi hc => ?_, fun i hi => ?_⟩
  · rw [hregistry, hclients, Clients.current_settle]
    exact ⟨rfl, rfl⟩
  · rw [hregistry] at hi
    rw [hclients] at hc
    rcases Clients.lookup?_of_settle hc with hold | ⟨hi', rfl⟩
    · exact h.cached i target client hi hold
    · rw [hsound.apart i n.id slot hi' hslot, htarget] at hi
      exact Option.some.inj hi
  · rw [hregistry] at hi
    rw [hclients, Clients.current_settle]
    exact h.removed_rest not_false hi

theorem remove {timeout : Nat} {id : String} {ids : List String} {removed : Node}
    {registry : Registry} (h : Tuned f rest)
    (hremoved : f.registry.removeIfStale now id timeout = some (removed, registry))
    (hnode : ∀ p ∈ rest, p.node? ≠ some id) :
    Tuned { f with registry } (.dropping timeout id ids :: rest) := by
  have htarget := Registry.target?_removeIfStale hremoved
  have hgone : registry.target? id = none := by rw [htarget, if_pos rfl]
  refine ⟨List.forall_mem_cons.2 ⟨hgone, fun p hp => (h.agree p hp).congr fun i hi => ⟨?_, rfl⟩⟩,
    fun i target client hi hc => ?_, fun i hi => ?_⟩
  · have hne : i ≠ id := fun heq => hnode p hp (heq ▸ hi)
    rw [htarget, if_neg hne]
  · rw [htarget] at hi
    split at hi
    · cases hi
    · exact h.cached i target client hi hc
  · by_cases heq : i = id
    · exact .inr ⟨_, List.mem_cons_self, heq.symm⟩
    · rw [htarget, if_neg heq] at hi
      rcases h.removed i hi with hnone | ⟨p, hp, hdrops⟩
      · exact .inl hnone
      · exact .inr ⟨p, List.mem_cons_of_mem _ hp, hdrops⟩

theorem drop {timeout : Nat} {id : String} {ids : List String}
    (h : Tuned f (.dropping timeout id ids :: rest)) (hnode : ∀ p ∈ rest, p.node? ≠ some id) :
    Tuned { f with clients := (f.clients.evict id).2 } rest := by
  refine ⟨fun p hp => (h.agree p (List.mem_cons_of_mem _ hp)).congr fun i hi => ⟨rfl, ?_⟩,
    fun i target client hi hc => ?_, fun i hi => ?_⟩
  · have hne : i ≠ id := fun heq => hnode p hp (heq ▸ hi)
    rw [Clients.current_evict, if_neg hne]
  · rw [Clients.lookup?_evict] at hc
    split at hc
    · cases hc
    · exact h.cached i target client hi hc
  · rw [Clients.current_evict]
    split
    · exact .inl rfl
    · rename_i hne
      exact h.removed_rest (fun heq => hne heq.symm) hi

/-- An operation that is apart from the others takes a section, and stays apart. -/
theorem next (h : Tuned f (o :: rest)) (hsound : f.clients.Sound)
    (hapart : (o :: rest).Pairwise Operation.Compatible)
    (hnext : o.next f now dial = (f', left))
    (hapart' : (left.toList ++ rest).Pairwise Operation.Compatible) :
    Tuned f' (left.toList ++ rest) := by
  have hrest := (List.pairwise_cons.1 hapart).1
  cases o with
  | evicting n =>
    cases hnext
    have hnode : ∀ p ∈ rest, p.node? ≠ some n.id := fun p hp => (hrest p hp).node?_ne rfl rfl
    refine ((h.tail fun _ => not_false).evict hnode).cons (.inr ?_)
    exact (f.clients.current_evict n.id n.id).trans (if_pos rfl)
  | storing n =>
    cases hnext
    exact h.store fun p hp => (hrest p hp).node?_ne rfl rfl
  | seeking n =>
    cases hnext
    exact h.seek hsound hrest
  | dialling n slot =>
    cases hnext
    exact h.settle hsound
  | sweeping timeout ids =>
    cases ids with
    | nil =>
      cases hnext
      exact h.tail fun _ => not_false
    | cons id ids =>
      simp only [Operation.next] at hnext
      split at hnext <;> cases hnext
      · rename_i hremoved
        have hrest' := (List.pairwise_cons.1 hapart').1
        exact (h.tail fun _ => not_false).remove hremoved fun p hp => (hrest' p hp).node?_ne rfl rfl
      · exact (h.tail fun _ => not_false).cons trivial
  | dropping timeout id ids =>
    cases hnext
    exact (h.drop fun p hp => (hrest p hp).node?_ne rfl rfl).cons trivial

/-- A registration of a node on which no other operation is at work begins. -/
theorem register (h : Tuned f ops)
    (hapart : ∀ p ∈ ops, (Operation.ofRegister f.registry n).Compatible p) :
    Tuned f (.ofRegister f.registry n :: ops) := by
  refine h.cons ?_
  unfold Operation.ofRegister at hapart ⊢
  cases hget : f.registry.get? n.id with
  | none =>
    simp only [hget] at hapart
    have htarget : f.registry.target? n.id = none := by rw [Registry.target?, hget, Option.map_none]
    rcases h.removed n.id htarget with hnone | ⟨p, hp, hdrops⟩
    · exact .inr hnone
    · exact absurd (Operation.node?_of_drops hdrops) ((hapart p hp).node?_ne rfl rfl)
  | some previous =>
    dsimp only
    split
    · trivial
    · rename_i hsame
      refine .inl ?_
      rw [Registry.target?_of_get? hget, not_not.1 hsame]

theorem step {seen : String → String → Prop} {s : Traffic} (h : Tuned s.fleet s.inFlight)
    (htracked : Tracked seen s.fleet s.inFlight) {x : Section} (hapart : s.Apart)
    (hapart' : (s.step x).Apart) : Tuned (s.step x).fleet (s.step x).inFlight := by
  unfold Apart at hapart hapart'
  rcases s.step_cases x with hsame | ⟨o, hstep, ho⟩ | ⟨o, rest, now, dial, hperm, hstep⟩
  · rw [hsame]
    exact h
  · rw [hstep] at hapart' ⊢
    have hperm := List.perm_append_singleton o s.inFlight
    refine Tuned.perm ?_ hperm.symm
    rcases ho with ⟨n, rfl⟩ | ⟨n, model, rfl, hselect⟩ | ⟨timeout, ids, rfl⟩
    · exact h.register (List.pairwise_cons.1 ((hperm.pairwise_iff .symm).1 hapart')).1
    · exact h.cons (Registry.target?_of_get? (Registry.select_ok htracked.named hselect).1)
    · exact h.cons trivial
  · rw [hstep] at hapart' ⊢
    exact (h.perm hperm).next htracked.sound ((hperm.pairwise_iff .symm).1 hapart) rfl hapart'

theorem run (limit : Nat) {sections : List Section}
    (hapart : ∀ early, early <+: sections → ((start limit).run early).Apart) :
    Tuned ((start limit).run sections).fleet ((start limit).run sections).inFlight := by
  induction sections using List.reverseRecOn with
  | nil => exact ⟨fun _ h => (by cases h), fun _ _ _ h => (by cases h), fun _ _ => .inl rfl⟩
  | append_singleton sections x ih =>
    have hbefore := hapart sections (List.prefix_append ..)
    have hafter := hapart _ List.prefix_rfl
    have htracked := tracked_run limit sections (fun _ _ => True) fun _ _ _ _ _ => trivial
    have htuned := ih fun early h => hapart early (h.trans (List.prefix_append ..))
    rw [run_append] at hafter ⊢
    exact htuned.step htracked hbefore hafter

end Tuned

/-- In every run of sections, in any order: a node's client was dialled at a target at which the
node was registered at some time. If moreover no change of a node was ever in flight together with
another operation on that node, then each registered node's client is at the present target, and so
is the agent that a dispatch in flight will ask. -/
theorem client_at_target (limit : Nat) (sections : List Section) :
    let s := (start limit).run sections
    (∀ id client, s.fleet.clients.lookup? id = some client → ∃ early, early <+: sections ∧
      ((start limit).run early).fleet.registry.target? id = some client) ∧
    ((∀ early, early <+: sections → ((start limit).run early).Apart) →
      (∀ id target client, s.fleet.registry.target? id = some target →
        s.fleet.clients.lookup? id = some client → client = target) ∧
      ∀ n slot dial client, .dialling n slot ∈ s.inFlight →
        (s.fleet.connect slot n.agentTarget dial).1 = .ok client →
        s.fleet.registry.target? n.id = some client) := by
  intro s
  refine ⟨?_, fun hapart => ?_⟩
  · have htracked := tracked_run limit sections
      (fun id target => ∃ early, early <+: sections ∧
        ((start limit).run early).fleet.registry.target? id = some target)
      fun early hearly id target h => ⟨early, hearly, h⟩
    exact htracked.cached
  · have htuned := Tuned.run limit hapart
    refine ⟨htuned.cached, fun n slot dial client ho hdial => ?_⟩
    obtain ⟨htarget, hslot⟩ := htuned.agree _ ho
    rcases Fleet.connect_ok hdial with hclient | rfl
    · have hlookup := Clients.lookup?_eq_some_iff.2 ⟨slot, hslot, hclient⟩
      rw [htuned.cached n.id _ client htarget hlookup]
      exact htarget
    · exact htarget

/-- A node that is asked, comes back elsewhere, and is asked again. -/
theorem client_at_target_moved :
    let now : Instant := .ofNanos 0
    let old : Node := { id := "n1", hostname := "h", agentAddress := "10.0.0.1:7000" }
    let new : Node := { old with agentAddress := "10.0.0.2:7000", lastSeen := some now }
    let first : List Section := [.register old, .next 0 now (.ok ()),
      .select "m", .next 0 now (.ok ()), .next 0 now (.ok ())]
    let sections : List Section := first ++ [.register new, .next 0 now (.ok ()),
      .next 0 now (.ok ()), .select "m", .next 0 now (.ok ())]
    (∀ early, early <+: sections → ((start 1).run early).Apart) ∧
      ((start 1).run first).fleet.clients.lookup? "n1" = some "10.0.0.1:7000" ∧
      ((start 1).run sections).inFlight = [.dialling new 1] ∧
      (((start 1).run sections).fleet.connect 1 new.agentTarget (.ok ())).1 =
        .ok "10.0.0.2:7000" ∧
      ((start 1).run sections).fleet.registry.target? new.id = some "10.0.0.2:7000" := by
  intro now old new first sections
  have hapart : ∀ early, early <+: sections → ((start 1).run early).Apart := by
    intro early hearly
    have hall : ∀ early ∈ sections.inits, ((start 1).run early).Apart := by decide +kernel
    exact hall early ((List.mem_inits early sections).2 hearly)
  have hcached : ((start 1).run first).fleet.clients.lookup? "n1" = some "10.0.0.1:7000" := by
    decide +kernel
  have hflight : ((start 1).run sections).inFlight = [.dialling new 1] := by decide +kernel
  have hdialling : .dialling new 1 ∈ ((start 1).run sections).inFlight := by
    rw [hflight]
    exact List.mem_singleton_self _
  have hempty : ((start 1).run sections).fleet.clients.client? 1 = none := by decide +kernel
  have hdial : (((start 1).run sections).fleet.connect 1 new.agentTarget (.ok ())).1 =
      .ok "10.0.0.2:7000" := by
    rw [Fleet.connect, hempty]
    rfl
  obtain ⟨-, htargets⟩ := client_at_target 1 sections
  obtain ⟨-, hasked⟩ := htargets hapart
  exact ⟨hapart, hcached, hflight, hdial, hasked new 1 (.ok ()) _ hdialling hdial⟩

/-- A dispatch that has selected its node before a move and looks for the slot after the old client
was dropped: when all are done the node's client is at the old target, and so is the agent that the
next caller talks to. -/
theorem client_left_behind :
    let now : Instant := .ofNanos 0
    let old : Node := { id := "n1", hostname := "h", agentAddress := "10.0.0.1:7000" }
    let new : Node := { old with agentAddress := "10.0.0.2:7000" }
    let s := (start 1).run [.register old, .next 0 now (.ok ()), .select "m", .register new,
      .next 1 now (.ok ()), .next 1 now (.ok ()), .next 1 now (.ok ()), .next 0 now (.ok ())]
    let r : ChatRequest := { model := "m", messages := [{ role := "user", content := "hi" }] }
    let agents : Agents := ⟨fun _ => .ok (), fun _ _ => .ok [], fun _ _ => .ok {}⟩
    s.inFlight = [] ∧ s.fleet.registry.target? "n1" = some "10.0.0.2:7000" ∧
      s.fleet.clients.lookup? "n1" = some "10.0.0.1:7000" ∧
      (s.fleet.chat agents r).2.asked = [⟨"10.0.0.1:7000", .chat r⟩] := by
  decide +kernel

end Traffic

end InferenceFleet
