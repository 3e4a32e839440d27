import InferenceFleet.Proofs.Settings.Paths
import InferenceFleet.Proofs.Settings.Variables
import InferenceFleet.Settings.Sources

/-!
# What the sources make of one setting

`Holds` says that a tree has a value under a key of a section. A variable brings it about, and what
is put at paths that spare the setting keeps it (`Holds.putAll`), as does the merge over the presets
(`holds_merged`).
-/

namespace InferenceFleet.Settings

/-- The tree has the value under the key of the section. -/
def Holds (root : Value) (sect key : String) (v : Value) : Prop :=
  ∃ w, root.get? sect = some w ∧ w.get? key = some v

/-- What is put at the end of the steps leaves the setting as it is: they lead elsewhere. -/
def Spares (sect key : String) (steps : List Step) : Prop :=
  ∃ name rest, steps = .member name :: rest ∧
    (foldKey name ≠ sect ∨ ∃ name' rest', rest = .member name' :: rest' ∧ foldKey name' ≠ key)

section
variable {root v w : Value} {sect key : String} {steps : List Step}
  {source file environment : List (String × Value)}

theorem put_member (v : Value) (name : String) (steps : List Step) (root : Value) :
    Value.put v (.member name :: steps) (some root) = root.withMember name (Value.put v steps) := by
  rw [Value.put]
  rfl

theorem Holds.put (h : Holds root sect key v) (hspares : Spares sect key steps) :
    Holds (Value.put w steps (some root)) sect key v := by
  obtain ⟨x, hsect, hkey⟩ := h
  obtain ⟨name, rest, rfl, hother⟩ := hspares
  rw [put_member]
  by_cases hname : sect = foldKey name
  · obtain ⟨name', rest', rfl, hne⟩ := hother.resolve_left fun h => h hname.symm
    refine ⟨x.withMember name' (Value.put w rest'), ?_, ?_⟩
    · rw [Value.get?_withMember, if_pos hname, ← hname, hsect, put_member]
    · rw [Value.get?_withMember, if_neg (Ne.symm hne), hkey]
  · exact ⟨x, by rw [Value.get?_withMember, if_neg hname, hsect], hkey⟩

theorem Holds.putAll (h : Holds root sect key v)
    (hspares : ∀ m ∈ source, Spares sect key (path m.1)) :
    Holds (root.putAll source) sect key v := by
  induction source generalizing root with
  | nil => exact h
  | cons m source ih =>
    obtain ⟨hm, hsource⟩ := List.forall_mem_cons.1 hspares
    exact ih (h.put hm) hsource

/-- A scalar that is put under a key of a section is what the tree has there. -/
theorem holds_put (hv : ∀ ms, v ≠ .table ms) (hsect : foldKey sect = sect)
    (hkey : foldKey key = key) (root : Value) :
    Holds (Value.put v [.member sect, .member key] (some root)) sect key v := by
  have hput (current : Value) : (current.withMember key (Value.put v [])).get? key = some v := by
    rw [Value.get?_withMember, if_pos hkey.symm, Value.put, Value.merge_of_members hv]
  refine ⟨_, ?_, hput ((root.get? sect).getD .null)⟩
  rw [put_member, Value.get?_withMember, hsect, if_pos rfl, Value.put]

/-! ### The second round -/

/-- All keys are paths to themselves. -/
def SelfPaths (root : Value) : Prop := ∀ m ∈ root.members, path m.1 = [.member m.1]

theorem SelfPaths.putAll (h : SelfPaths root)
    (hsource : ∀ m ∈ source, ∀ c ∈ m.1.toList, c ≠ '\u212A') : SelfPaths (root.putAll source) := by
  induction source generalizing root with
  | nil => exact h
  | cons m source ih =>
    obtain ⟨hm, hrest⟩ := List.forall_mem_cons.1 hsource
    obtain ⟨name, steps, hpath, hself, -⟩ := path_first hm
    refine ih (fun n hn => ?_) hrest
    change n ∈ (m.2.put (path m.1) (some root)).members at hn
    rw [hpath, put_member] at hn
    rcases Value.mem_alter hn with hn | rfl | ⟨w, -, rfl⟩
    · exact h n hn
    · exact hself
    · exact hself

theorem putAll_eq_mergeMembers {ms : List (String × Value)}
    (h : ∀ m ∈ ms, path m.1 = [.member m.1]) (root : Value) :
    root.putAll ms = Value.mergeMembers ms root := by
  induction ms generalizing root with
  | nil => rfl
  | cons m ms ih =>
    obtain ⟨key, v⟩ := m
    obtain ⟨hkey, hms⟩ := List.forall_mem_cons.1 h
    have hkey : path key = [.member key] := hkey
    have hput : Value.put v (path key) (some root) = Value.mergeMember (key, v) root := by
      have hmerge : Value.put v [] = fun old => Value.merge v old :=
        funext fun _ => by rw [Value.put]
      rw [hkey, put_member, hmerge]
      rfl
    rw [Value.mergeMembers, ← hput]
    exact ih hms _

theorem holds_merged (hv : ∀ ms, v ≠ .table ms)
    (hfile : ∀ m ∈ file, ∀ c ∈ m.1.toList, c ≠ '\u212A')
    (henvironment : ∀ m ∈ environment, ∀ c ∈ m.1.toList, c ≠ '\u212A')
    (h : Holds (((Value.table []).putAll file).putAll environment) sect key v) :
    Holds (merged file environment) sect key v := by
  have hstart : (Value.table []).Tidy := .plain rfl
  have htidy := Value.tidy_putAll (Value.tidy_putAll hstart file) environment
  have hself : SelfPaths (((Value.table []).putAll file).putAll environment) :=
    SelfPaths.putAll (SelfPaths.putAll (fun _ hm => (by cases hm)) hfile) henvironment
  obtain ⟨w, hsect, hkey⟩ := h
  obtain ⟨ms, rfl⟩ := Value.exists_table hkey
  have hms : (Value.table ms).Tidy := htidy.of_get? hsect
  have hnodup : (ms.map Prod.fst).Nodup := hms.nodup
  have hlookup : ms.lookup key = some v := hkey
  have hroot := Value.get?_mergeMembers htidy.nodup htidy.folded presets sect
  have hsect' : List.lookup sect _ = some (Value.table ms) := hsect
  rw [hsect', Option.elim_some, Value.merge, ← putAll_eq_mergeMembers hself] at hroot
  refine ⟨_, hroot, ?_⟩
  rw [Value.get?_mergeMembers hnodup hms.folded, hlookup, Option.elim_some,
    Value.merge_of_members hv]

/-! ### Variables -/

theorem lowerChar_ne_kelvin (c : Char) : lowerChar c ≠ '\u212A' := by
  by_cases hkelvin : c = '\u212A'
  · rw [hkelvin]
    decide
  · by_cases hupper : c.isUpper = true
    · exact forall_upper (p := fun c => lowerChar c ≠ '\u212A') (by decide) hupper
    · rw [lowerChar_eq_self hkelvin hupper]
      exact hkelvin

theorem mem_pointed {cs : List Char} {c : Char} (h : c ∈ pointed cs) : c = '.' ∨ c ∈ cs := by
  fun_induction pointed cs with
  | case1 cs ih =>
    rcases List.mem_cons.1 h with h | h
    · exact .inl h
    · exact (ih h).imp_right fun h => List.mem_cons_of_mem _ (List.mem_cons_of_mem _ h)
  | case2 d cs _ ih =>
    rcases List.mem_cons.1 h with h | h
    · exact .inr (h ▸ List.mem_cons_self)
    · exact (ih h).imp_right fun h => List.mem_cons_of_mem _ h
  | case3 => cases h

theorem ne_kelvin_of_variableKey? {name : String} (h : variableKey? name = some key) :
    ∀ c ∈ key.toList, c ≠ '\u212A' := by
  intro c hc
  rw [variableKey?] at h
  split at h
  · obtain rfl := Option.some.inj h
    rw [String.toList_ofList] at hc
    rcases mem_pointed hc with rfl | hc
    · decide
    · have hmem := (List.drop_sublist _ _).mem hc
      rw [toList_foldKey] at hmem
      obtain ⟨d, -, rfl⟩ := List.mem_map.1 hmem
      exact lowerChar_ne_kelvin d
  · cases h

theorem exists_of_mem_ofEnvironment {vs : List (String × String)} {m : String × Value}
    (h : m ∈ ofEnvironment vs) : ∃ e ∈ vs, variableKey? e.1 = some m.1 := by
  obtain ⟨e, he, hm⟩ := List.mem_filterMap.1 h
  obtain ⟨k, hk, rfl⟩ := Option.map_eq_some_iff.1 hm
  exact ⟨e, he, hk⟩

theorem ne_kelvin_of_mem_ofEnvironment (vs : List (String × String)) :
    ∀ m ∈ ofEnvironment vs, ∀ c ∈ m.1.toList, c ≠ '\u212A' := by
  intro m hm
  obtain ⟨e, -, hkey⟩ := exists_of_mem_ofEnvironment hm
  exact ne_kelvin_of_variableKey? hkey

theorem ofEnvironment_append (vs others : List (String × String)) :
    ofEnvironment (vs ++ others) = ofEnvironment vs ++ ofEnvironment others :=
  List.filterMap_append

theorem ofEnvironment_cons {name k : String} (hk : variableKey? name = some k) (text : String)
    (others : List (String × String)) :
    ofEnvironment ((name, text) :: others) = (k, .ofVariable text) :: ofEnvironment others := by
  rw [ofEnvironment, List.filterMap_cons]
  simp only [hk]
  rfl

/-- A setting is what its variable says, whatever the file and the other vs set. -/
theorem holds_of_variable {before after : List (String × String)} {name text k : String}
    (hk : variableKey? name = some k) (hpath : path k = [.member sect, .member key])
    (hsect : foldKey sect = sect) (hkey : foldKey key = key)
    (hfile : ∀ m ∈ file, ∀ c ∈ m.1.toList, c ≠ '\u212A')
    (hafter : ∀ e ∈ after, ∀ k, variableKey? e.1 = some k → Spares sect key (path k)) :
    Holds (merged file (ofEnvironment (before ++ (name, text) :: after))) sect key
      (.ofVariable text) := by
  have htable := (reads_ofVariable text).ne_table
  refine holds_merged htable hfile (ne_kelvin_of_mem_ofEnvironment _) ?_
  rw [ofEnvironment_append, ofEnvironment_cons hk, Value.putAll, List.foldl_append, List.foldl_cons]
  refine Holds.putAll ?_ fun m hm => ?_
  · show Holds (Value.put _ (path k) _) _ _ _
    rw [hpath]
    exact holds_put htable hsect hkey _
  · obtain ⟨e, he, hm⟩ := exists_of_mem_ofEnvironment hm
    exact hafter e he _ hm

end

end InferenceFleet.Settings
