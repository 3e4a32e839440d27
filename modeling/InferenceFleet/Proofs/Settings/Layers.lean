import InferenceFleet.Proofs.Settings.Merged

/-!
# One source over another

A tree of settings has sections with plain values in them. A source that is put into such a tree
goes over what was there setting by setting: `setting?_put` for a single setting, `setting?_putAll`
for whole sections. `setting?_merged` says the same of the sources over the presets.
-/

namespace InferenceFleet.Settings

namespace Value

/-- The value that a tree has for a setting. -/
def setting? (root : Value) (sect key : String) : Option Value :=
  (root.get? sect).bind fun w => w.get? key

def isTable : Value → Bool
  | .table _ => true
  | _ => false

theorem exists_of_isTable {v : Value} (h : v.isTable = true) : ∃ ms, v = .table ms := by
  cases v with
  | table ms => exact ⟨ms, rfl⟩
  | _ => cases h

def IsPlain (v : Value) : Prop := ∀ ms, v ≠ .table ms

theorem isPlain_of_isTable {v : Value} (h : v.isTable = false) : v.IsPlain := by
  rintro ms rfl
  cases h

/-- A table of plain values. -/
structure IsSection (v : Value) : Prop where
  table : ∃ ms, v = .table ms
  plain : ∀ e ∈ v.members, e.2.IsPlain

/-- A tree of sections. -/
def Sectioned (root : Value) : Prop := ∀ m ∈ root.members, m.2.IsSection

section
variable {root v w : Value} {old : Option Value} {sect key : String} {ms : List (String × Value)}

/-! ### What is put keeps the form of a tree -/

theorem IsSection.withMember (h : ∀ e ∈ w.members, e.2.IsPlain) {f : Option Value → Value}
    (hf : ∀ old, (f old).IsPlain) : (w.withMember key f).IsSection := by
  refine ⟨⟨_, rfl⟩, fun e he => ?_⟩
  rcases mem_alter he with he | rfl | ⟨x, -, rfl⟩
  · exact h e he
  · exact hf none
  · exact hf (some x)

theorem isPlain_merge (hv : v.IsPlain) (old : Option Value) : (merge v old).IsPlain := by
  rwa [merge_of_members hv]

theorem isSection_put (hv : v.IsPlain) (h : ∀ w, old = some w → w.IsSection) :
    (put v [.member key] old).IsSection := by
  rw [put]
  refine IsSection.withMember (fun e he => ?_) fun old => by rw [put]; exact isPlain_merge hv old
  cases old with
  | none => cases he
  | some w => exact (h w rfl).plain e he

theorem IsSection.mergeMembers (hms : ∀ e ∈ ms, e.2.IsPlain) (h : w.IsSection) :
    (mergeMembers ms w).IsSection := by
  induction ms generalizing w with
  | nil => exact h
  | cons e ms ih =>
    obtain ⟨key, v⟩ := e
    obtain ⟨hv, hms⟩ := List.forall_mem_cons.1 hms
    have hmember : mergeMember (key, v) w = w.withMember key fun old => merge v old := rfl
    rw [Value.mergeMembers, hmember]
    exact ih hms (IsSection.withMember h.plain (isPlain_merge hv))

theorem isSection_empty : (Value.table []).IsSection := ⟨⟨_, rfl⟩, fun _ he => by cases he⟩

theorem IsSection.merge (hv : v.IsSection) (h : ∀ w, old = some w → w.IsSection) :
    (merge v old).IsSection := by
  obtain ⟨ms, rfl⟩ := hv.table
  rw [Value.merge]
  refine IsSection.mergeMembers hv.plain ?_
  cases old with
  | none => exact isSection_empty
  | some w => exact h w rfl

theorem Sectioned.withMember (h : root.Sectioned) {f : Option Value → Value}
    (hf : ∀ old, (∀ w, old = some w → w.IsSection) → (f old).IsSection) :
    (root.withMember sect f).Sectioned := by
  intro m hm
  rcases mem_alter hm with hm | rfl | ⟨w, hw, rfl⟩
  · exact h m hm
  · exact hf none fun _ hw => by cases hw
  · refine hf (some w) fun x hx => ?_
    cases hx
    exact h _ hw

/-- What a source sets: one setting, or a section. -/
inductive IsEntry (m : String × Value) : Prop where
  | setting {sect key : String} : path m.1 = [.member sect, .member key] → m.2.IsPlain → IsEntry m
  | whole {sect : String} : path m.1 = [.member sect] → m.2.IsSection → IsEntry m

theorem Sectioned.putAll (h : root.Sectioned) (hms : ∀ m ∈ ms, IsEntry m) :
    (root.putAll ms).Sectioned := by
  induction ms generalizing root with
  | nil => exact h
  | cons m ms ih =>
    obtain ⟨hm, hms⟩ := List.forall_mem_cons.1 hms
    refine ih ?_ hms
    change (put m.2 (path m.1) (some root)).Sectioned
    cases hm with
    | setting hpath hplain =>
      rw [hpath, put_member]
      exact h.withMember fun old hold => isSection_put hplain hold
    | whole hpath hsection =>
      rw [hpath, put_member]
      exact h.withMember fun old hold => by rw [put]; exact hsection.merge hold

/-! ### Settings after a change -/

theorem get?_getD_null (old : Option Value) (key : String) :
    (old.getD .null).get? key = old.bind fun w => w.get? key := by
  cases old <;> rfl

theorem setting?_withMember (hsect : foldKey sect = sect) (root : Value) (f : Option Value → Value)
    (s k : String) : (root.withMember sect f).setting? s k =
      if s = sect then (f (root.get? s)).get? k else root.setting? s k := by
  rw [setting?, get?_withMember, hsect]
  split
  · rename_i hs
    rw [hs, Option.bind_some]
  · rfl

theorem setting?_put (hv : v.IsPlain) (hsect : foldKey sect = sect) (hkey : foldKey key = key)
    (root : Value) (s k : String) :
    (put v [.member sect, .member key] (some root)).setting? s k =
      if s = sect ∧ k = key then some v else root.setting? s k := by
  rw [put_member, setting?_withMember hsect]
  by_cases hs : s = sect
  · rw [if_pos hs, put, get?_withMember, hkey, put, merge_of_members hv]
    simp only [hs, true_and, get?_getD_null]
    rfl
  · rw [if_neg hs, if_neg fun h => hs h.1]

theorem get?_merge_section (hms : ∀ e ∈ ms, e.2.IsPlain) (hnodup : (ms.map Prod.fst).Nodup)
    (hfold : ∀ e ∈ ms, foldKey e.1 = e.1) (old : Option Value) (k : String) :
    (merge (.table ms) old).get? k = (ms.lookup k).or (old.bind fun w => w.get? k) := by
  have hold : (old.getD (.table [])).get? k = old.bind fun w => w.get? k := by cases old <;> rfl
  rw [merge, get?_mergeMembers hnodup hfold, hold]
  cases hlookup : ms.lookup k with
  | none => rfl
  | some v =>
    rw [Option.elim_some, merge_of_members (hms _ (mem_of_lookup hlookup)), Option.some_or]

end

/-- A source of whole sections, each once, with each setting once. -/
structure IsLayer (source : List (String × Value)) : Prop where
  nodup : (source.map Prod.fst).Nodup
  path : ∀ m ∈ source, path m.1 = [.member m.1]
  folded : ∀ m ∈ source, foldKey m.1 = m.1
  sections : ∀ m ∈ source, m.2.IsSection
  nodup_keys : ∀ m ∈ source, (m.2.members.map Prod.fst).Nodup
  folded_keys : ∀ m ∈ source, ∀ e ∈ m.2.members, foldKey e.1 = e.1

section
variable {source : List (String × Value)} {root : Value}

theorem IsLayer.setting?_putAll (h : IsLayer source) (root : Value) (s k : String) :
    (root.putAll source).setting? s k =
      ((Value.table source).setting? s k).or (root.setting? s k) := by
  induction source generalizing root with
  | nil => rfl
  | cons m source ih =>
    obtain ⟨sect, v⟩ := m
    obtain ⟨hnew, hnodup⟩ := List.nodup_cons.1 h.nodup
    obtain ⟨hpath, hpaths⟩ := List.forall_mem_cons.1 h.path
    obtain ⟨hfold, hfolds⟩ := List.forall_mem_cons.1 h.folded
    obtain ⟨hsection, hsections⟩ := List.forall_mem_cons.1 h.sections
    obtain ⟨hkeys, hnodups⟩ := List.forall_mem_cons.1 h.nodup_keys
    obtain ⟨hfoldKeys, hfoldedKeys⟩ := List.forall_mem_cons.1 h.folded_keys
    have hrest : IsLayer source := ⟨hnodup, hpaths, hfolds, hsections, hnodups, hfoldedKeys⟩
    obtain ⟨ms, rfl⟩ := hsection.table
    change (Value.putAll source (put (.table ms) (Settings.path sect) (some root))).setting? s k = _
    rw [ih hrest, hpath, put_member, setting?_withMember hfold, put]
    by_cases hs : s = sect
    · subst hs
      have hnone : (Value.table source).setting? s k = none := by
        rw [setting?, get?, members, lookup_eq_none hnew, Option.bind_none]
      have hfirst : (Value.table ((s, .table ms) :: source)).setting? s k = ms.lookup k := by
        rw [setting?, get?, members, List.lookup_cons_self, Option.bind_some, get?, members]
      rw [if_pos rfl, hnone, hfirst, Option.none_or]
      exact get?_merge_section hsection.plain hkeys hfoldKeys (root.get? s) k
    · have hother : (Value.table ((sect, .table ms) :: source)).setting? s k =
          (Value.table source).setting? s k := by
        rw [setting?, get?, members, lookup_cons_ne hs]
        rfl
      rw [if_neg hs, hother]

theorem isLayer_members (htidy : root.Tidy) (hself : SelfPaths root) (h : root.Sectioned) :
    IsLayer root.members where
  nodup := htidy.nodup
  path := hself
  folded := htidy.folded
  sections := h
  nodup_keys m hm := (htidy.of_mem m hm).nodup
  folded_keys m hm := (htidy.of_mem m hm).folded

end

end Value

theorem isSection_listener (host : String) (port : Int) :
    (Value.table [("host", .text host), ("port", .integer port)]).IsSection := by
  have hhost : (Value.text host).IsPlain := Value.isPlain_of_isTable rfl
  have hport : (Value.integer port).IsPlain := Value.isPlain_of_isTable rfl
  exact ⟨⟨_, rfl⟩, List.forall_mem_cons.2 ⟨hhost, List.forall_mem_singleton.2 hport⟩⟩

theorem sectioned_presets : presets.Sectioned :=
  List.forall_mem_cons.2
    ⟨isSection_listener _ _, List.forall_mem_singleton.2 (isSection_listener _ _)⟩

section
variable {file environment : List (String × Value)}
  (hfile : ∀ m ∈ file, Value.IsEntry m) (henvironment : ∀ m ∈ environment, Value.IsEntry m)
  (hfileKeys : ∀ m ∈ file, ∀ c ∈ m.1.toList, c ≠ '\u212A')
  (henvironmentKeys : ∀ m ∈ environment, ∀ c ∈ m.1.toList, c ≠ '\u212A')
include hfile henvironment hfileKeys henvironmentKeys

theorem isLayer_sources :
    Value.IsLayer (((Value.table []).putAll file).putAll environment).members := by
  have hstart : (Value.table []).Tidy := .plain rfl
  have htidy := Value.tidy_putAll (Value.tidy_putAll hstart file) environment
  have hself : SelfPaths (((Value.table []).putAll file).putAll environment) :=
    SelfPaths.putAll (SelfPaths.putAll (fun _ hm => (by cases hm)) hfileKeys) henvironmentKeys
  have hsectioned : (((Value.table []).putAll file).putAll environment).Sectioned :=
    Value.Sectioned.putAll (Value.Sectioned.putAll (fun _ hm => (by cases hm)) hfile) henvironment
  exact Value.isLayer_members htidy hself hsectioned

/-- The settings in the tree of all sources are those of file and variables, and else the presets. -/
theorem setting?_merged (s k : String) :
    (merged file environment).setting? s k =
      (((Value.table []).putAll file |>.putAll environment).setting? s k).or
        (presets.setting? s k) :=
  (isLayer_sources hfile henvironment hfileKeys henvironmentKeys).setting?_putAll presets s k

theorem sectioned_merged : (merged file environment).Sectioned := by
  have hlayer := isLayer_sources hfile henvironment hfileKeys henvironmentKeys
  exact sectioned_presets.putAll fun m hm => .whole (hlayer.path m hm) (hlayer.sections m hm)

end

end InferenceFleet.Settings
