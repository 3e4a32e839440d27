/-!
# Maps ordered by key

A `Keyed α` is a finite map from texts to `α`, kept in ascending order of the keys. Texts are
ordered by code point, which is also the order of their UTF-8 bytes.
-/

namespace InferenceFleet

/-- The keys ascend strictly. -/
def Ascending {α : Type} (entries : List (String × α)) : Prop :=
  entries.Pairwise fun a b => a.1 < b.1

structure Keyed (α : Type) where
  entries : List (String × α)
  ascending : Ascending entries

namespace Keyed

variable {α : Type}

/-- `entries` with `value` under `key`. -/
def insertEntry (key : String) (value : α) : List (String × α) → List (String × α)
  | [] => [(key, value)]
  | e :: es =>
    if e.1 < key then e :: insertEntry key value es
    else if e.1 = key then (key, value) :: es
    else (key, value) :: e :: es

theorem mem_insertEntry {key : String} {value : α} {e : String × α} {es : List (String × α)}
    (h : e ∈ insertEntry key value es) : e = (key, value) ∨ e ∈ es := by
  induction es with
  | nil => simpa [insertEntry] using h
  | cons d es ih =>
    simp only [insertEntry] at h
    split at h
    · rcases List.mem_cons.1 h with h | h
      · exact .inr (by simp [h])
      · exact (ih h).imp_right (List.mem_cons_of_mem _)
    · split at h
      · rcases List.mem_cons.1 h with h | h
        · exact .inl h
        · exact .inr (List.mem_cons_of_mem _ h)
      · rcases List.mem_cons.1 h with h | h
        · exact .inl h
        · exact .inr h

theorem lt_of_not_lt_of_ne {a b : String} (h : ¬ a < b) (hne : a ≠ b) : b < a :=
  Std.lt_of_le_of_ne (Std.not_lt.1 h) (Ne.symm hne)

theorem ascending_insertEntry {key : String} {value : α} {es : List (String × α)}
    (h : Ascending es) : Ascending (insertEntry key value es) := by
  induction es with
  | nil => simp [insertEntry, Ascending]
  | cons e es ih =>
    obtain ⟨hlt, hes⟩ := List.pairwise_cons.1 h
    simp only [insertEntry]
    split
    · refine List.pairwise_cons.2 ⟨fun d hd => ?_, ih hes⟩
      rcases mem_insertEntry hd with rfl | hd
      · assumption
      · exact hlt d hd
    · split
      · subst_vars
        exact List.pairwise_cons.2 ⟨hlt, hes⟩
      · have hkey : key < e.1 := lt_of_not_lt_of_ne ‹_› ‹_›
        refine List.pairwise_cons.2 ⟨fun d hd => ?_, h⟩
        rcases List.mem_cons.1 hd with rfl | hd
        · exact hkey
        · exact Std.lt_trans hkey (hlt d hd)

def empty : Keyed α := { entries := [], ascending := List.Pairwise.nil }

instance : Inhabited (Keyed α) := ⟨empty⟩

def get? (m : Keyed α) (key : String) : Option α :=
  (m.entries.find? fun e => e.1 == key).map (·.2)

def contains (m : Keyed α) (key : String) : Bool := (m.get? key).isSome

def insert (m : Keyed α) (key : String) (value : α) : Keyed α where
  entries := insertEntry key value m.entries
  ascending := ascending_insertEntry m.ascending

def erase (m : Keyed α) (key : String) : Keyed α where
  entries := m.entries.filter fun e => e.1 != key
  ascending := m.ascending.sublist List.filter_sublist

def keys (m : Keyed α) : List String := m.entries.map (·.1)

def values (m : Keyed α) : List α := m.entries.map (·.2)

def size (m : Keyed α) : Nat := m.entries.length

@[ext] theorem ext {m n : Keyed α} (h : m.entries = n.entries) : m = n := by
  cases m
  cases n
  simp_all

instance [DecidableEq α] : DecidableEq (Keyed α) := fun _ _ =>
  decidable_of_iff _ ⟨ext, fun h => h ▸ rfl⟩

/-! ### Reading a map after a change -/

@[simp] theorem get?_empty (key : String) : (empty : Keyed α).get? key = none := rfl

theorem find?_insertEntry_self (key : String) (value : α) (es : List (String × α)) :
    ((insertEntry key value es).find? fun e => e.1 == key) = some (key, value) := by
  induction es with
  | nil => simp [insertEntry]
  | cons e es ih =>
    simp only [insertEntry]
    split
    · rename_i hlt
      have hne : e.1 ≠ key := fun h => Std.lt_irrefl (h ▸ hlt)
      simpa [hne] using ih
    · split <;> simp

theorem find?_insertEntry_of_ne {key i : String} (h : i ≠ key) (value : α)
    (es : List (String × α)) :
    ((insertEntry key value es).find? fun e => e.1 == i) = es.find? fun e => e.1 == i := by
  have hne : ¬ key = i := fun h' => h h'.symm
  induction es with
  | nil => simp [insertEntry, hne]
  | cons e es ih =>
    simp only [insertEntry]
    split
    · rw [List.find?_cons, List.find?_cons, ih]
    · split
      · rename_i heq
        simp [hne, heq]
      · simp [hne]

theorem get?_insert (m : Keyed α) (key : String) (value : α) (i : String) :
    (m.insert key value).get? i = if i = key then some value else m.get? i := by
  split
  · rename_i h
    rw [h, get?, insert, find?_insertEntry_self, Option.map_some]
  · rename_i h
    rw [get?, insert, find?_insertEntry_of_ne h, get?]

theorem get?_erase (m : Keyed α) (key i : String) :
    (m.erase key).get? i = if i = key then none else m.get? i := by
  rw [get?, erase, List.find?_filter]
  split
  · rename_i h
    rw [h, List.find?_eq_none.2 (by simp), Option.map_none]
  · rename_i h
    have hkeys : (fun e : String × α => decide ((e.1 != key) = true ∧ (e.1 == i) = true)) =
        fun e => e.1 == i := by
      funext e
      by_cases he : e.1 = i <;> simp [he, h]
    rw [hkeys, get?]

theorem get?_eq_some_iff {m : Keyed α} {key : String} {value : α} :
    m.get? key = some value ↔ (key, value) ∈ m.entries := by
  obtain ⟨es, hes⟩ := m
  simp only [get?]
  induction es with
  | nil => simp
  | cons e es ih =>
    obtain ⟨hlt, hrest⟩ := List.pairwise_cons.1 hes
    by_cases he : e.1 = key
    · have hnot : (key, value) ∉ es := fun h => Std.lt_irrefl (he ▸ hlt _ h)
      simp [he, hnot, Prod.ext_iff, eq_comm]
    · have hne : ¬ (key, value) = e := fun h => he (h ▸ rfl)
      simpa [he, hne] using ih hrest

end Keyed

end InferenceFleet
