import InferenceFleet.Proofs.Registry.Calls
import InferenceFleet.Proofs.Text.ByteOrder

/-!
# The listing after any calls

A registry is determined by the records under its ids (`ext_get?`). So it depends on the calls on
each node alone, and not on how those on different nodes come after one another (`run_congr`). Its
listing ascends by the bytes of the ids (`Named.list_byteAscending`), and the node selected is the
one that leads it (`Named.select_eq_ok_iff`).
-/

namespace InferenceFleet

theorem Keyed.ext_get? {α : Type} {m n : Keyed α} (h : ∀ key, m.get? key = n.get? key) : m = n := by
  have hmem : ∀ e, e ∈ m.entries ↔ e ∈ n.entries := fun e => by
    rw [← Keyed.get?_eq_some_iff, h, Keyed.get?_eq_some_iff]
  have hnodup (k : Keyed α) : k.entries.Nodup := by
    refine k.ascending.imp fun {d e} hlt heq => ?_
    rw [heq] at hlt
    exact Std.lt_irrefl hlt
  have hperm := (List.perm_ext_iff_of_nodup (hnodup m) (hnodup n)).2 hmem
  refine Keyed.ext (hperm.eq_of_pairwise (fun a b _ _ hab hba => ?_) m.ascending n.ascending)
  exact absurd (Std.lt_trans hab hba) Std.lt_irrefl

namespace Registry
variable {r r' : Registry}

theorem ext_get? (h : ∀ id, r.get? id = r'.get? id) : r = r' := by
  have hnodes : r.nodes = r'.nodes := Keyed.ext_get? h
  cases r
  cases r'
  exact congrArg Registry.mk hnodes

/-- The calls on one node, with their instants. -/
def Log.on (log : Log) (id : String) : Log := log.filter fun e => e.2.id = id

/-- Calls on different nodes may be interleaved in any way. -/
theorem run_congr {log log' : Log} (h : ∀ id, log.on id = log'.on id) (r : Registry) :
    r.run log = r.run log' := by
  refine ext_get? fun id => ?_
  have hon : (log.filter fun e => e.2.id = id) = log'.filter fun e => e.2.id = id := h id
  rw [get?_run, get?_run, Log.effect, Log.effect, hon]

/-- The node is registered, and its id comes before those of all others. -/
def Leads (r : Registry) (n : Node) : Prop :=
  n ∈ r.list ∧ ∀ m ∈ r.list, m ≠ n → Utf8.encode n.id < Utf8.encode m.id

section
variable (h : r.Named)
include h

theorem Named.list_byteAscending :
    r.list.Pairwise fun m n => Utf8.encode m.id < Utf8.encode n.id :=
  h.list_ascending.imp fun hlt => (Utf8.encode_lt_iff _ _).2 hlt

theorem Named.get?_eq_some_iff {id : String} {n : Node} :
    r.get? id = some n ↔ n ∈ r.list ∧ n.id = id := by
  rw [mem_list]
  constructor
  · exact fun hn => ⟨⟨id, hn⟩, h id n hn⟩
  · rintro ⟨⟨i, hn⟩, rfl⟩
    obtain rfl := h i n hn
    exact hn

theorem Named.select_eq_ok_iff {model : String} {n : Node} :
    r.select model = .ok n ↔ r.Leads n := by
  have hascending := h.list_byteAscending
  rw [select, Leads]
  cases hlist : r.list with
  | nil => exact iff_of_false nofun fun hn => by cases hn.1
  | cons first rest =>
    rw [hlist] at hascending
    have hfirst : ∀ m ∈ rest, Utf8.encode first.id < Utf8.encode m.id :=
      (List.pairwise_cons.1 hascending).1
    constructor
    · rintro ⟨⟩
      refine ⟨List.mem_cons_self, fun m hm hne => ?_⟩
      exact hfirst m ((List.mem_cons.1 hm).resolve_left hne)
    · rintro ⟨hn, hleast⟩
      rcases List.mem_cons.1 hn with rfl | hn
      · rfl
      · -- Of two nodes the one cannot be before the other and behind it.
        have hbefore := hfirst n hn
        have hne : first ≠ n := fun heq => List.lt_irrefl _ (heq ▸ hbefore)
        exact absurd (hleast first List.mem_cons_self hne) (List.lt_asymm hbefore)

end

theorem select_eq_error_iff {model : String} {fault : NoNode} :
    r.select model = .error fault ↔ r.list = [] ∧ fault = { model } := by
  rw [select]
  cases r.list with
  | nil => exact ⟨fun heq => ⟨rfl, (Except.error.inj heq).symm⟩, fun heq => by rw [heq.2]⟩
  | cons => exact iff_of_false nofun nofun

end Registry

end InferenceFleet
