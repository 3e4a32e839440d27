import InferenceFleet.Proofs.Settings.Typed

/-!
# Which source a setting comes from

A file with some of the settings and variables for some of them are loaded setting by setting: what
the variable says, else what the file says, else what is preset for that very setting
(`load_precedence`). Loading fails just if an interval then is zero, with the key of the first one.
-/

namespace InferenceFleet.Settings
open Setting (found)

/-- Only settings, each once, with values of their own kinds; sections may be partial or empty. -/
structure OwnKinds (file : List (String × Value)) : Prop where
  nodup : (file.map Prod.fst).Nodup
  known : ∀ m ∈ file, ∃ k : Setting, k.place.1 = m.1
  tables : ∀ m ∈ file, m.2.isTable = true
  nodup_keys : ∀ m ∈ file, (m.2.members.map Prod.fst).Nodup
  own : ∀ m ∈ file, ∀ e ∈ m.2.members, ∃ k : Setting, k.place = (m.1, e.1) ∧ k.admits e.2 = true

instance (file : List (String × Value)) : Decidable (OwnKinds file) :=
  decidable_of_iff
    ((file.map Prod.fst).Nodup ∧ (∀ m ∈ file, ∃ k : Setting, k.place.1 = m.1) ∧
      (∀ m ∈ file, m.2.isTable = true) ∧ (∀ m ∈ file, (m.2.members.map Prod.fst).Nodup) ∧
      ∀ m ∈ file, ∀ e ∈ m.2.members, ∃ k : Setting,
        k.place = (m.1, e.1) ∧ k.admits e.2 = true)
    ⟨fun ⟨h₁, h₂, h₃, h₄, h₅⟩ => ⟨h₁, h₂, h₃, h₄, h₅⟩,
      fun h => ⟨h.nodup, h.known, h.tables, h.nodup_keys, h.own⟩⟩

/-- What a file gives for a setting. -/
def given (file : List (String × Value)) (k : Setting) : Option Value := found (.table file) k

/-- Each variable once, and those that set anything set a setting to a value of its own kind. -/
structure OwnVariables (environment : List (String × String)) : Prop where
  nodup : (environment.map Prod.fst).Nodup
  own : ∀ e ∈ environment, variableKey? e.1 = none ∨
    ∃ k : Setting, k.variableName = e.1 ∧ k.admits (.ofVariable e.2) = true

/-- What the variable of a setting says. -/
def spoken (environment : List (String × String)) (k : Setting) : Option Value :=
  (environment.lookup k.variableName).map .ofVariable

/-! ### The file -/

section
variable {file : List (String × Value)}

namespace OwnKinds
variable (h : OwnKinds file)
include h

theorem isSection {m : String × Value} (hm : m ∈ file) : m.2.IsSection where
  table := Value.exists_of_isTable (h.tables m hm)
  plain e he := by
    obtain ⟨k, -, hadmits⟩ := h.own m hm e he
    exact Setting.isPlain_of_admits hadmits

theorem path_eq {m : String × Value} (hm : m ∈ file) : path m.1 = [.member m.1] := by
  obtain ⟨k, hk⟩ := h.known m hm
  rw [← hk]
  exact k.path_section

theorem isLayer : Value.IsLayer file where
  nodup := h.nodup
  path _ hm := h.path_eq hm
  folded m hm := by
    obtain ⟨k, hk⟩ := h.known m hm
    rw [← hk]
    exact k.foldKey_section
  sections _ hm := h.isSection hm
  nodup_keys := h.nodup_keys
  folded_keys m hm e he := by
    obtain ⟨k, hk, -⟩ := h.own m hm e he
    have hkey : k.place.2 = e.1 := congrArg Prod.snd hk
    rw [← hkey]
    exact k.foldKey_place

theorem isEntry {m : String × Value} (hm : m ∈ file) : Value.IsEntry m :=
  .whole (h.path_eq hm) (h.isSection hm)

theorem ne_kelvin {m : String × Value} (hm : m ∈ file) : ∀ c ∈ m.1.toList, c ≠ '\u212A' := by
  obtain ⟨k, hk⟩ := h.known m hm
  rw [← hk]
  exact k.section_ne_kelvin

theorem typed_given : Typed (given file) := by
  intro k v hv
  obtain ⟨w, hw, hv⟩ := Option.bind_eq_some_iff.1 hv
  obtain ⟨j, hj, hadmits⟩ := h.own _ (Value.mem_of_lookup hw) _ (Value.mem_of_lookup hv)
  rwa [Setting.place_injective j k hj] at hadmits

end OwnKinds

end

/-! ### The variables -/

section
variable {environment : List (String × String)}

theorem spoken_cons_ne {name : String} {k : Setting} (h : k.variableName ≠ name) (text : String) :
    spoken ((name, text) :: environment) k = spoken environment k := by
  rw [spoken, Value.lookup_cons_ne h]
  rfl

theorem spoken_cons_self (k : Setting) (text : String) :
    spoken ((k.variableName, text) :: environment) k = some (.ofVariable text) := by
  rw [spoken, List.lookup_cons_self, Option.map_some]

namespace OwnVariables

theorem of_cons {e : String × String} (h : OwnVariables (e :: environment)) :
    OwnVariables environment :=
  ⟨(List.nodup_cons.1 h.nodup).2, (List.forall_mem_cons.1 h.own).2⟩

theorem isEntry (h : OwnVariables environment) {m : String × Value}
    (hm : m ∈ ofEnvironment environment) : Value.IsEntry m := by
  obtain ⟨e, he, hm⟩ := List.mem_filterMap.1 hm
  obtain ⟨key, hkey, rfl⟩ := Option.map_eq_some_iff.1 hm
  rcases h.own e he with hnone | ⟨k, hk, hadmits⟩
  · rw [hnone] at hkey
    cases hkey
  · rw [← hk, k.variableKey?_variableName] at hkey
    obtain rfl := Option.some.inj hkey
    exact .setting k.path_key (Setting.isPlain_of_admits hadmits)

theorem typed_spoken (h : OwnVariables environment) : Typed (spoken environment) := by
  intro k v hv
  obtain ⟨text, htext, rfl⟩ := Option.map_eq_some_iff.1 hv
  rcases h.own _ (Value.mem_of_lookup htext) with hnone | ⟨j, hj, hadmits⟩
  · rw [k.variableKey?_variableName] at hnone
    cases hnone
  · rwa [Setting.variableName_injective j k hj] at hadmits

/-- Variables that are put into a tree go over it setting by setting. -/
theorem found_putAll (h : OwnVariables environment) (root : Value) (k : Setting) :
    found (root.putAll (ofEnvironment environment)) k =
      (spoken environment k).or (found root k) := by
  -- The first variable is put in first. No later one has its name, so none goes over it.
  induction environment generalizing root with
  | nil => rfl
  | cons e environment ih =>
    obtain ⟨name, text⟩ := e
    have hnew : name ∉ environment.map Prod.fst := (List.nodup_cons.1 h.nodup).1
    rcases h.own _ List.mem_cons_self with hnone | ⟨j, hj, hadmits⟩
    · have hskip : ofEnvironment ((name, text) :: environment) = ofEnvironment environment := by
        rw [ofEnvironment, List.filterMap_cons]
        simp only [hnone, Option.map_none]
        rfl
      rw [hskip, spoken_cons_ne (k.variableName_ne hnone)]
      exact ih h.of_cons root
    · change j.variableName = name at hj
      subst hj
      rw [ofEnvironment_cons j.variableKey?_variableName]
      change found (Value.putAll _ (Value.put _ (path j.key) (some root))) k = _
      have hput := Value.setting?_put (Setting.isPlain_of_admits hadmits) j.foldKey_section
        j.foldKey_place root k.place.1 k.place.2
      rw [ih h.of_cons, j.path_key, found, hput]
      by_cases hk : k = j
      · subst hk
        have hother : spoken environment k = none := by
          rw [spoken, Value.lookup_eq_none hnew, Option.map_none]
        rw [if_pos ⟨rfl, rfl⟩, hother, spoken_cons_self, Option.none_or, Option.some_or]
      · rw [if_neg fun hplace => hk (Setting.place_injective k j (Prod.ext hplace.1 hplace.2)),
          spoken_cons_ne fun hname => hk (Setting.variableName_injective k j hname)]
        rfl

end OwnVariables

end

/-! ### All sources together -/

section
variable {files : Files} {name : String} {file : List (String × Value)}
  {environment : List (String × String)}

/-- What the sources say of a setting: the variable first, then the file. -/
def told (file : List (String × Value)) (environment : List (String × String)) (k : Setting) :
    Option Value :=
  (spoken environment k).or (given file k)

theorem typed_told (hfile : OwnKinds file) (henvironment : OwnVariables environment) :
    Typed (told file environment) := by
  intro k v hv
  rcases Option.or_eq_some_iff.1 hv with hv | ⟨-, hv⟩
  · exact henvironment.typed_spoken k v hv
  · exact hfile.typed_given k v hv

theorem found_merged (hfile : OwnKinds file) (henvironment : OwnVariables environment)
    (k : Setting) :
    found (merged file (ofEnvironment environment)) k =
      (told file environment k).or (found presets k) := by
  have hbelow : found ((Value.table []).putAll file) k = given file k := by
    rw [found, hfile.isLayer.setting?_putAll]
    exact Option.or_none
  rw [found, setting?_merged (fun _ => hfile.isEntry) (fun _ => henvironment.isEntry)
    (fun _ => hfile.ne_kelvin) (ne_kelvin_of_mem_ofEnvironment environment)]
  change (found _ k).or (found presets k) = _
  rw [henvironment.found_putAll, hbelow, told]

/-- The control surface has its own port even where its section is partial. -/
theorem found_presets (k : Setting) :
    found presets k = none ∨ found presets k = some k.preset ∧ k.admits k.preset = true := by
  cases k with
  | rpcHost | rpcPort | httpHost | httpPort => exact .inr ⟨rfl, rfl⟩
  | _ => exact .inl rfl

theorem typed_merged (hfile : OwnKinds file) (henvironment : OwnVariables environment) :
    Typed (found (merged file (ofEnvironment environment))) := by
  intro k v hv
  rw [found_merged hfile henvironment] at hv
  rcases Option.or_eq_some_iff.1 hv with hv | ⟨-, hv⟩
  · exact typed_told hfile henvironment k v hv
  · rcases found_presets k with hnone | ⟨hpreset, hadmits⟩
    · rw [hnone] at hv
      cases hv
    · rw [hpreset] at hv
      obtain rfl := Option.some.inj hv
      exact hadmits

/-- The presets in the tree are those of the settings themselves. -/
theorem getD_found_merged (hfile : OwnKinds file) (henvironment : OwnVariables environment)
    (k : Setting) : (found (merged file (ofEnvironment environment)) k).getD k.preset =
      (told file environment k).getD k.preset := by
  rw [found_merged hfile henvironment]
  cases htold : told file environment k with
  | some v => rfl
  | none =>
    rcases found_presets k with hnone | ⟨hpreset, -⟩
    · rw [hnone, Option.or_none]
    · rw [hpreset]
      rfl

theorem ofValue_merged (hfile : OwnKinds file) (henvironment : OwnVariables environment) :
    ofValue (merged file (ofEnvironment environment)) =
      .ok (ofFound (found (merged file (ofEnvironment environment)))) := by
  refine ofValue_eq (fun sect w hw => ?_) (typed_merged hfile henvironment) ?_
  · have hsectioned := sectioned_merged (fun _ => hfile.isEntry) (fun _ => henvironment.isEntry)
      (fun _ => hfile.ne_kelvin) (ne_kelvin_of_mem_ofEnvironment environment)
    exact (hsectioned _ (Value.mem_of_lookup hw)).table
  · have hpreset : found presets .rpcPort = some (Setting.preset .rpcPort) := rfl
    rw [found_merged hfile henvironment, hpreset, Option.isSome_or]
    exact Bool.or_true _

theorem checked_eq (s : Settings) :
    checked s =
      if s.heartbeat.timeoutSecs = 0 then .error (.zeroInterval "heartbeat.timeout_secs")
      else if s.heartbeat.sweepIntervalSecs = 0 then
        .error (.zeroInterval "heartbeat.sweep_interval_secs")
      else if s.processor.pollIntervalMs = 0 then .error (.zeroInterval "processor.poll_interval_ms")
      else .ok s := by
  by_cases htimeout : s.heartbeat.timeoutSecs = 0
  · simp [checked, zeroInterval?, intervals, htimeout]
  by_cases hsweep : s.heartbeat.sweepIntervalSecs = 0
  · simp [checked, zeroInterval?, intervals, htimeout, hsweep]
  by_cases hpoll : s.processor.pollIntervalMs = 0
  · simp [checked, zeroInterval?, intervals, htimeout, hsweep, hpoll]
  · simp [checked, zeroInterval?, intervals, htimeout, hsweep, hpoll]

/-- Each setting is what its variable says, else what the file says, else what is preset for it,
whatever the others are; a variable's text is taken as it is written and its digits as a number. The
settings can be used unless an interval is zero, and then the first such interval is named. -/
theorem load_precedence (hread : readFile files name = .ok file) (hfile : OwnKinds file)
    (henvironment : OwnVariables environment) :
    ∃ s : Settings,
      (∀ k : Setting, k.value s = ((spoken environment k).or (given file k)).getD k.preset) ∧
      (∀ (k : Setting) text, environment.lookup k.variableName = some text →
        (k.limit? = none → k.value s = .text text) ∧
        ∀ n < 2 ^ 63, text = decimal n → k.value s = .integer n) ∧
      load files name environment =
        if s.heartbeat.timeoutSecs = 0 then .error (.zeroInterval "heartbeat.timeout_secs")
        else if s.heartbeat.sweepIntervalSecs = 0 then
          .error (.zeroInterval "heartbeat.sweep_interval_secs")
        else if s.processor.pollIntervalMs = 0 then
          .error (.zeroInterval "processor.poll_interval_ms")
        else .ok s := by
  have hvalue (k : Setting) := (typed_merged hfile henvironment).value_ofFound k
  simp only [getD_found_merged hfile henvironment] at hvalue
  refine ⟨_, hvalue, fun k text htext => ?_, ?_⟩
  · have hspoken : spoken environment k = some (.ofVariable text) := by
      rw [spoken, htext, Option.map_some]
    have htold : told file environment k = some (.ofVariable text) := by
      rw [told, hspoken, Option.some_or]
    rw [hvalue, htold, Option.getD_some]
    refine ⟨fun hk => ?_, ?_⟩
    · exact k.ofVariable_of_admits hk (henvironment.typed_spoken k _ hspoken)
    · rintro n hn rfl
      exact ofVariable_decimal hn
  · rw [load, hread]
    change (ofValue _ >>= checked) = _
    rw [ofValue_merged hfile henvironment]
    exact checked_eq _

/-- A control surface of which the file gives only the host keeps its own port, and the gateway
listens where a variable says. -/
theorem load_precedence_host_alone :
    let files := [("control-plane.toml", "[rpc]\nhost = \"10.0.0.1\"\n[heartbeat]\n")]
    let environment := [("PATH", "/bin"), ("FLEET__HTTP__PORT", "8081")]
    ∃ file s, readFile files defaultPath = .ok file ∧ OwnKinds file ∧
      OwnVariables environment ∧ s.rpc.host = "10.0.0.1" ∧ s.rpc.port.toNat = 50051 ∧
      s.http.port.toNat = 8081 ∧ load files defaultPath environment = .ok s := by
  intro files environment
  have hreads : ((readFile files defaultPath).toOption.map fun file =>
      (decide (OwnKinds file), (given file .rpcHost).bind Value.text?,
        (given file .rpcPort).isNone, (given file .timeoutSecs).isNone,
        (given file .sweepIntervalSecs).isNone, (given file .pollIntervalMs).isNone)) =
      some (true, some "10.0.0.1", true, true, true, true) := by
    decide +kernel
  obtain ⟨file, hfile, hgiven⟩ := Option.map_eq_some_iff.1 hreads
  have hread : readFile files defaultPath = .ok file := of_toOption hfile
  obtain ⟨hown, hhost, hport, htimeout, hsweep, hpoll⟩ :
    OwnKinds file ∧ (given file .rpcHost).bind Value.text? = some "10.0.0.1" ∧
      given file .rpcPort = none ∧ given file .timeoutSecs = none ∧
      given file .sweepIntervalSecs = none ∧ given file .pollIntervalMs = none := by
    simpa using hgiven
  have hvariables : OwnVariables environment := by
    refine ⟨by decide, List.forall_mem_cons.2 ⟨.inl (by decide +kernel), ?_⟩⟩
    exact List.forall_mem_singleton.2 (.inr ⟨.httpPort, rfl, by decide +kernel⟩)
  obtain ⟨s, hvalue, hspoken, hload⟩ := load_precedence hread hown hvariables
  have hpreset {k : Setting} (hnone : environment.lookup k.variableName = none)
      (hgiven : given file k = none) : k.value s = k.preset := by
    rw [hvalue, spoken, hnone, hgiven]
    rfl
  have hcount {m n : Nat} (h : Value.integer m = .integer n) : m = n :=
    Int.ofNat.inj (Value.integer.inj h)
  have hnonzero {w : UInt64} {n : Nat} (h : w.toNat = n + 1) : w ≠ 0 := by
    rintro rfl
    cases h
  have htimeout := hcount (hpreset (k := .timeoutSecs) (by decide) htimeout)
  have hsweep := hcount (hpreset (k := .sweepIntervalSecs) (by decide) hsweep)
  have hpoll := hcount (hpreset (k := .pollIntervalMs) (by decide) hpoll)
  refine ⟨file, s, hread, hown, hvariables, ?_, ?_, ?_, ?_⟩
  · obtain ⟨v, hv, htext⟩ := Option.bind_eq_some_iff.1 hhost
    obtain ⟨t, rfl⟩ := Setting.exists_text rfl (hown.typed_given _ v hv)
    have hvalue := hvalue .rpcHost
    rw [hv] at hvalue
    exact (Value.text.inj hvalue).trans (Option.some.inj htext)
  · exact hcount (hpreset (k := .rpcPort) (by decide) hport)
  · exact hcount ((hspoken .httpPort "8081" (by decide)).2 8081 (by decide) (by decide +kernel))
  · rw [hload, if_neg (hnonzero htimeout), if_neg (hnonzero hsweep), if_neg (hnonzero hpoll)]

end

end InferenceFleet.Settings
