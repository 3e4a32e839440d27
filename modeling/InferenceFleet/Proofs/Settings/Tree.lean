import InferenceFleet.Settings.Path

/-!
# Looking into a tree of settings

What a change of one member does to the others (`get?_withMember`), and what is found after one
table has been merged into another (`get?_mergeMembers`). That needs tables without two keys that
differ in their case only; the trees that are built from sources are such (`tidy_putAll`).
-/

namespace InferenceFleet.Settings

/-! ### Keys -/

theorem lowerChar_of_ne {c : Char} (h : c ≠ '\u212A') : lowerChar c = c.toLower := if_neg h

/-- A character that is not an upper-case letter of ASCII keeps its form. -/
theorem lowerChar_eq_self {c : Char} (h : c ≠ '\u212A') (hupper : ¬ c.isUpper = true) :
    lowerChar c = c := by
  rw [lowerChar_of_ne h]
  exact dif_neg fun hrange => hupper (decide_eq_true hrange)

theorem forall_upper {p : Char → Prop} (h : ∀ i : Fin 26, p (Char.ofNat (65 + i.val))) {c : Char}
    (hc : c.isUpper = true) : p c := by
  have hrange : 65 ≤ c.toNat ∧ c.toNat ≤ 90 := of_decide_eq_true hc
  have hchar := h ⟨c.toNat - 65, by omega⟩
  have hcode : 65 + (c.toNat - 65) = c.toNat := by omega
  rwa [hcode, Char.ofNat_toNat] at hchar

theorem lowerChar_lowerChar (c : Char) : lowerChar (lowerChar c) = lowerChar c := by
  by_cases hkelvin : c = '\u212A'
  · rw [hkelvin]
    decide
  · by_cases hupper : c.isUpper = true
    · revert hupper
      exact forall_upper (p := fun c => lowerChar (lowerChar c) = lowerChar c) (by decide)
    · rw [lowerChar_eq_self hkelvin hupper, lowerChar_eq_self hkelvin hupper]

theorem foldKey_foldKey (key : String) : foldKey (foldKey key) = foldKey key := by
  rw [foldKey, foldKey, String.toList_ofList, List.map_map]
  exact congrArg String.ofList (List.map_congr_left fun c _ => lowerChar_lowerChar c)

namespace Value
variable {v w : Value} {key j : String} {f : Option Value → Value} {ms : List (String × Value)}

/-! ### Members -/

/-- The member `key` of a table. -/
def get? (v : Value) (key : String) : Option Value := v.members.lookup key

/-- Only a table has members. -/
theorem exists_table (h : v.get? key = some w) : ∃ ms, v = .table ms := by
  cases v with
  | table ms => exact ⟨ms, rfl⟩
  | _ => cases h

theorem lookup_cons_ne {α : Type} {k : String} (h : j ≠ k) (v : α) (ms : List (String × α)) :
    ((k, v) :: ms).lookup j = ms.lookup j := by
  rw [List.lookup_cons, beq_false_of_ne h]

theorem lookup_alter (key : String) (f : Option Value → Value) (ms : List (String × Value))
    (j : String) :
    (alter key f ms).lookup j = if j = key then some (f (ms.lookup key)) else ms.lookup j := by
  induction ms with
  | nil =>
    rw [alter]
    by_cases hj : j = key
    · rw [hj, if_pos rfl, List.lookup_cons_self]
      rfl
    · rw [if_neg hj, lookup_cons_ne hj]
  | cons m ms ih =>
    obtain ⟨k, v⟩ := m
    rw [alter]
    by_cases hk : k = key
    · subst hk
      rw [if_pos rfl]
      by_cases hj : j = k
      · rw [hj, if_pos rfl, List.lookup_cons_self, List.lookup_cons_self]
      · rw [if_neg hj, lookup_cons_ne hj, lookup_cons_ne hj]
    · rw [if_neg hk, lookup_cons_ne (Ne.symm hk)]
      by_cases hj : j = k
      · subst hj
        rw [if_neg hk, List.lookup_cons_self, List.lookup_cons_self]
      · rw [lookup_cons_ne hj, lookup_cons_ne hj, ih]

theorem get?_withMember (v : Value) (key : String) (f : Option Value → Value) (j : String) :
    (v.withMember key f).get? j =
      if j = foldKey key then some (f (v.get? (foldKey key))) else v.get? j :=
  lookup_alter (foldKey key) f v.members j

theorem keys_alter (key : String) (f : Option Value → Value) (ms : List (String × Value)) :
    (alter key f ms).map Prod.fst =
      if key ∈ ms.map Prod.fst then ms.map Prod.fst else ms.map Prod.fst ++ [key] := by
  induction ms with
  | nil => rfl
  | cons m ms ih =>
    rw [alter]
    by_cases hm : m.1 = key
    · simp [hm]
    · have hkey : ¬ key = m.1 := fun h => hm h.symm
      rw [if_neg hm, List.map_cons, ih]
      by_cases hmem : key ∈ ms.map Prod.fst <;> simp_all

theorem mem_alter {m : String × Value} (h : m ∈ alter key f ms) :
    m ∈ ms ∨ m = (key, f none) ∨ ∃ w, (key, w) ∈ ms ∧ m = (key, f (some w)) := by
  induction ms with
  | nil => exact .inr (.inl (List.mem_singleton.1 h))
  | cons n ms ih =>
    rw [alter] at h
    split at h
    · rename_i hn
      rcases List.mem_cons.1 h with rfl | h
      · exact .inr (.inr ⟨n.2, List.mem_cons.2 (.inl (by rw [← hn])), rfl⟩)
      · exact .inl (List.mem_cons_of_mem n h)
    · rcases List.mem_cons.1 h with rfl | h
      · exact .inl List.mem_cons_self
      · rcases ih h with h | h | ⟨w, hw, h⟩
        · exact .inl (List.mem_cons_of_mem n h)
        · exact .inr (.inl h)
        · exact .inr (.inr ⟨w, List.mem_cons_of_mem n hw, h⟩)

/-! ### Tidy trees -/

/-- In no table are there two keys that differ in their case only, down to the lists. -/
inductive Tidy : Value → Prop where
  | plain {v : Value} : v.members = [] → Tidy v
  | table {ms : List (String × Value)} : (ms.map Prod.fst).Nodup →
    (∀ m ∈ ms, foldKey m.1 = m.1) → (∀ m ∈ ms, m.2.Tidy) → Tidy (.table ms)

theorem Tidy.nodup (h : v.Tidy) : (v.members.map Prod.fst).Nodup := by
  cases h with
  | plain h =>
    rw [h]
    exact List.nodup_nil
  | table h => exact h

theorem Tidy.folded (h : v.Tidy) : ∀ m ∈ v.members, foldKey m.1 = m.1 := by
  cases h with
  | plain h =>
    rw [h]
    exact fun _ hm => (by cases hm)
  | table _ h => exact h

theorem Tidy.of_mem (h : v.Tidy) : ∀ m ∈ v.members, m.2.Tidy := by
  cases h with
  | plain h =>
    rw [h]
    exact fun _ hm => (by cases hm)
  | table _ _ h => exact h

theorem mem_of_lookup {α : Type} {ms : List (String × α)} {v : α} (h : ms.lookup key = some v) :
    (key, v) ∈ ms := by
  induction ms with
  | nil => cases h
  | cons m ms ih =>
    obtain ⟨k, w⟩ := m
    by_cases hk : key = k
    · subst hk
      rw [List.lookup_cons_self] at h
      cases h
      exact List.mem_cons_self
    · rw [lookup_cons_ne hk] at h
      exact List.mem_cons_of_mem _ (ih h)

theorem Tidy.of_get? (h : v.Tidy) (hget : v.get? key = some w) : w.Tidy :=
  h.of_mem _ (mem_of_lookup hget)

theorem Tidy.withMember (h : v.Tidy) (key : String)
    (hf : ∀ old, (∀ w, old = some w → w.Tidy) → (f old).Tidy) : (v.withMember key f).Tidy := by
  refine .table ?_ (fun m hm => ?_) fun m hm => ?_
  · rw [keys_alter]
    split
    · exact h.nodup
    · rename_i hkey
      have hsingle : [foldKey key].Nodup := List.pairwise_singleton _ _
      refine List.nodup_append.2 ⟨h.nodup, hsingle, fun a ha b hb heq => hkey ?_⟩
      rwa [← List.mem_singleton.1 hb, ← heq]
  · rcases mem_alter hm with hm | rfl | ⟨w, hw, rfl⟩
    · exact h.folded m hm
    · exact foldKey_foldKey key
    · exact foldKey_foldKey key
  · rcases mem_alter hm with hm | rfl | ⟨w, hw, rfl⟩
    · exact h.of_mem m hm
    · exact hf none fun _ hw => (by cases hw)
    · refine hf (some w) fun x hx => ?_
      cases hx
      exact h.of_mem _ hw

mutual

theorem Tidy.merge : (v : Value) → {current : Option Value} → (∀ w, current = some w → w.Tidy) →
    (merge v current).Tidy
  | .table ms, current, h => by
    rw [Value.merge]
    refine Tidy.mergeMembers ms ?_
    cases current with
    | none => exact .plain rfl
    | some w => exact h w rfl
  | .null, _, _ => .plain rfl
  | .flag _, _, _ => .plain rfl
  | .integer _, _, _ => .plain rfl
  | .real _, _, _ => .plain rfl
  | .notANumber, _, _ => .plain rfl
  | .text _, _, _ => .plain rfl
  | .list _, _, _ => .plain rfl

theorem Tidy.mergeMembers : (ms : List (String × Value)) → {current : Value} → current.Tidy →
    (mergeMembers ms current).Tidy
  | [], _, h => h
  | m :: ms, _, h => Tidy.mergeMembers ms (Tidy.mergeMember m h)

theorem Tidy.mergeMember : (m : String × Value) → {current : Value} → current.Tidy →
    (mergeMember m current).Tidy
  | (key, v), _, h => h.withMember key fun _ hold => Tidy.merge v hold

end

theorem Tidy.put (v : Value) (steps : List Step) {current : Option Value}
    (h : ∀ w, current = some w → w.Tidy) : (put v steps current).Tidy := by
  induction steps generalizing current with
  | nil => exact .merge v h
  | cons step steps ih =>
    cases step with
    | member name =>
      rw [Value.put]
      refine Tidy.withMember ?_ name fun old hold => ih hold
      cases current with
      | none => exact .plain rfl
      | some w => exact h w rfl
    | item place => exact .plain rfl

theorem tidy_putAll {root : Value} (h : root.Tidy) (source : List (String × Value)) :
    (root.putAll source).Tidy := by
  induction source generalizing root with
  | nil => exact h
  | cons m source ih =>
    refine ih (.put m.2 (path m.1) fun w hw => ?_)
    cases hw
    exact h

/-! ### Merging -/

/-- What is no table replaces whatever was there. -/
theorem merge_of_members (hv : ∀ ms, v ≠ .table ms) (current : Option Value) :
    merge v current = v := by
  cases v with
  | table ms => exact absurd rfl (hv ms)
  | _ => rfl

theorem lookup_eq_none {α : Type} {ms : List (String × α)} (h : key ∉ ms.map Prod.fst) :
    ms.lookup key = none := by
  induction ms with
  | nil => rfl
  | cons m ms ih =>
    obtain ⟨hne, hrest⟩ := List.ne_and_not_mem_of_not_mem_cons h
    rw [lookup_cons_ne hne, ih hrest]

/-- A member of the incoming table is merged into the one that was there; the others stay. -/
theorem get?_mergeMembers (hnodup : (ms.map Prod.fst).Nodup) (hfold : ∀ m ∈ ms, foldKey m.1 = m.1)
    (current : Value) (j : String) :
    (mergeMembers ms current).get? j =
      (ms.lookup j).elim (current.get? j) fun v => some (merge v (current.get? j)) := by
  induction ms generalizing current with
  | nil => rfl
  | cons m ms ih =>
    obtain ⟨key, v⟩ := m
    obtain ⟨hnone, hnodup⟩ := List.nodup_cons.1 hnodup
    obtain ⟨hkey, hfold⟩ := List.forall_mem_cons.1 hfold
    have hkey : foldKey key = key := hkey
    have hmember : mergeMember (key, v) current =
      current.withMember key fun old => merge v old := rfl
    rw [mergeMembers, ih hnodup hfold, hmember, get?_withMember, hkey]
    by_cases hj : j = key
    · subst hj
      rw [if_pos rfl, lookup_eq_none hnone, List.lookup_cons_self]
      rfl
    · rw [if_neg hj, lookup_cons_ne hj]

end Value

end InferenceFleet.Settings
