import InferenceFleet.Proofs.Except
import InferenceFleet.Proofs.Settings.Layers

/-!
# The settings one by one

Each setting has a place in a tree, a variable, a preset and a kind of values. A tree with values of
the settings' own kinds is read setting by setting: what stands at its place, and else its preset
(`ofValue_eq`, `Typed.value_ofFound`).
-/

namespace InferenceFleet

/-- The settings one by one. -/
inductive Setting where
  | rpcHost | rpcPort | httpHost | httpPort | timeoutSecs | sweepIntervalSecs | pollIntervalMs
  | maxConcurrentJobs | apiKey | level
  deriving DecidableEq

namespace Setting
open Settings

def all : List Setting :=
  [.rpcHost, .rpcPort, .httpHost, .httpPort, .timeoutSecs, .sweepIntervalSecs, .pollIntervalMs,
    .maxConcurrentJobs, .apiKey, .level]

theorem mem_all (k : Setting) : k ∈ all := by cases k <;> decide

instance (p : Setting → Prop) [DecidablePred p] : Decidable (∀ k, p k) :=
  decidable_of_iff (∀ k ∈ all, p k) ⟨fun h k => h k k.mem_all, fun h k _ => h k⟩

instance (p : Setting → Prop) [DecidablePred p] : Decidable (∃ k, p k) :=
  decidable_of_iff (∃ k ∈ all, p k) ⟨fun ⟨k, _, h⟩ => ⟨k, h⟩, fun ⟨k, h⟩ => ⟨k, k.mem_all, h⟩⟩

/-- The section of a setting and its key there. -/
def place : Setting → String × String
  | .rpcHost => ("rpc", "host")
  | .rpcPort => ("rpc", "port")
  | .httpHost => ("http", "host")
  | .httpPort => ("http", "port")
  | .timeoutSecs => ("heartbeat", "timeout_secs")
  | .sweepIntervalSecs => ("heartbeat", "sweep_interval_secs")
  | .pollIntervalMs => ("processor", "poll_interval_ms")
  | .maxConcurrentJobs => ("processor", "max_concurrent_jobs")
  | .apiKey => ("auth", "api_key")
  | .level => ("logging", "level")

/-- The variable that sets it. -/
def variableName : Setting → String
  | .rpcHost => "FLEET__RPC__HOST"
  | .rpcPort => "FLEET__RPC__PORT"
  | .httpHost => "FLEET__HTTP__HOST"
  | .httpPort => "FLEET__HTTP__PORT"
  | .timeoutSecs => "FLEET__HEARTBEAT__TIMEOUT_SECS"
  | .sweepIntervalSecs => "FLEET__HEARTBEAT__SWEEP_INTERVAL_SECS"
  | .pollIntervalMs => "FLEET__PROCESSOR__POLL_INTERVAL_MS"
  | .maxConcurrentJobs => "FLEET__PROCESSOR__MAX_CONCURRENT_JOBS"
  | .apiKey => "FLEET__AUTH__API_KEY"
  | .level => "FLEET__LOGGING__LEVEL"

/-- What holds unless it is set. -/
def preset : Setting → Value
  | .rpcHost | .httpHost => .text "0.0.0.0"
  | .rpcPort => .integer 50051
  | .httpPort => .integer 8080
  | .timeoutSecs => .integer 30
  | .sweepIntervalSecs => .integer 10
  | .pollIntervalMs => .integer 100
  | .maxConcurrentJobs => .integer 64
  | .apiKey => .null
  | .level => .text "info"

/-- The greatest number that can be set; none for a text. -/
def limit? : Setting → Option Nat
  | .rpcPort | .httpPort => some (2 ^ 16 - 1)
  | .timeoutSecs | .sweepIntervalSecs | .pollIntervalMs | .maxConcurrentJobs => some (2 ^ 63 - 1)
  | .rpcHost | .httpHost | .apiKey | .level => none

/-- Whether a value is of the setting's own kind. -/
def admits (k : Setting) : Value → Bool
  | .text _ => k.limit?.isNone
  | .integer n => k.limit?.any fun (limit : Nat) => 0 ≤ n ∧ n ≤ limit
  | _ => false

/-- What a setting is. -/
def value (s : Settings) : Setting → Value
  | .rpcHost => .text s.rpc.host
  | .rpcPort => .integer s.rpc.port.toNat
  | .httpHost => .text s.http.host
  | .httpPort => .integer s.http.port.toNat
  | .timeoutSecs => .integer s.heartbeat.timeoutSecs.toNat
  | .sweepIntervalSecs => .integer s.heartbeat.sweepIntervalSecs.toNat
  | .pollIntervalMs => .integer s.processor.pollIntervalMs.toNat
  | .maxConcurrentJobs => .integer s.processor.maxConcurrentJobs.toNat
  | .apiKey => s.auth.apiKey.elim .null .text
  | .level => .text s.logging.level

/-- The value of a setting in a tree. -/
def found (root : Value) (k : Setting) : Option Value := root.setting? k.place.1 k.place.2

section
variable {k : Setting} {v : Value}

theorem exists_text (hk : k.limit? = none) (h : k.admits v = true) : ∃ t, v = .text t := by
  cases v with
  | text t => exact ⟨t, rfl⟩
  | integer n =>
    rw [admits, hk] at h
    cases h
  | _ => cases h

/-- The variable of a text is taken as it is written. -/
theorem ofVariable_of_admits {text : String} (hk : k.limit? = none)
    (h : k.admits (.ofVariable text) = true) : Value.ofVariable text = .text text := by
  obtain ⟨t, ht⟩ := k.exists_text hk h
  have hreads := reads_ofVariable text
  rw [ht] at hreads ⊢
  cases hreads
  rfl

theorem exists_count {limit : Nat} (hk : k.limit? = some limit) (h : k.admits v = true) :
    ∃ n : Nat, v = .integer n ∧ n ≤ limit := by
  cases v with
  | text t =>
    rw [admits, hk] at h
    cases h
  | integer n =>
    rw [admits, hk, Option.any_some, decide_eq_true_eq] at h
    exact ⟨n.toNat, by rw [Int.toNat_of_nonneg h.1], by omega⟩
  | _ => cases h

theorem isPlain_of_admits (h : k.admits v = true) : v.IsPlain := by
  rintro ms rfl
  cases h

/-! ### Names -/

theorem place_injective : ∀ j k : Setting, j.place = k.place → j = k := by decide +kernel

theorem variableName_injective : ∀ j k : Setting, j.variableName = k.variableName → j = k := by
  decide +kernel

/-- The key that the variable of a setting sets. -/
def key (k : Setting) : String := k.place.1 ++ "." ++ k.place.2

theorem variableKey?_variableName : ∀ k : Setting, variableKey? k.variableName = some k.key := by
  decide +kernel

theorem variableName_ne {name : String} (k : Setting) (h : variableKey? name = none) :
    k.variableName ≠ name := by
  rintro rfl
  rw [k.variableKey?_variableName] at h
  cases h

theorem path_key : ∀ k : Setting, path k.key = [.member k.place.1, .member k.place.2] := by
  decide +kernel

theorem path_section : ∀ k : Setting, path k.place.1 = [.member k.place.1] := by decide +kernel

theorem foldKey_section : ∀ k : Setting, foldKey k.place.1 = k.place.1 := by decide +kernel

theorem foldKey_place : ∀ k : Setting, foldKey k.place.2 = k.place.2 := by decide +kernel

theorem section_ne_kelvin (k : Setting) : ∀ c ∈ k.place.1.toList, c ≠ '\u212A' := by
  rw [← k.foldKey_section, toList_foldKey]
  intro c hc
  obtain ⟨d, -, rfl⟩ := List.mem_map.1 hc
  exact lowerChar_ne_kelvin d

end

end Setting

namespace Settings
open Setting (found)

/-! ### Reading typed values -/

def textOr (absent : String) : Option Value → String
  | some (.text t) => t
  | _ => absent

def countOr (absent : Nat) : Option Value → Nat
  | some (.integer n) => n.toNat
  | _ => absent

def keyOf : Option Value → Option String
  | some (.text t) => some t
  | _ => none

/-- The settings of which each is what `look` finds, or else preset. -/
def ofFound (look : Setting → Option Value) : Settings where
  rpc :=
    { host := textOr "0.0.0.0" (look .rpcHost)
      port := .ofNat (countOr 50051 (look .rpcPort)) }
  http :=
    { host := textOr "0.0.0.0" (look .httpHost)
      port := .ofNat (countOr 8080 (look .httpPort)) }
  heartbeat :=
    { timeoutSecs := .ofNat (countOr 30 (look .timeoutSecs))
      sweepIntervalSecs := .ofNat (countOr 10 (look .sweepIntervalSecs)) }
  processor :=
    { pollIntervalMs := .ofNat (countOr 100 (look .pollIntervalMs))
      maxConcurrentJobs := .ofNat (countOr 64 (look .maxConcurrentJobs)) }
  auth := { apiKey := keyOf (look .apiKey) }
  logging := { level := textOr "info" (look .level) }

/-- A text, if anything. -/
def TextIfAny (v : Option Value) : Prop := v = none ∨ ∃ t, v = some (.text t)

/-- A number up to the limit, if anything. -/
def CountIfAny (limit : Nat) (v : Option Value) : Prop :=
  v = none ∨ ∃ n : Nat, v = some (.integer n) ∧ n ≤ limit

/-- What is found is of the settings' own kinds. -/
def Typed (look : Setting → Option Value) : Prop := ∀ k v, look k = some v → k.admits v = true

section
variable {look : Setting → Option Value} (h : Typed look) {k : Setting}
include h

theorem Typed.text (hk : k.limit? = none) : TextIfAny (look k) := by
  cases hv : look k with
  | none => exact .inl rfl
  | some v =>
    obtain ⟨t, rfl⟩ := Setting.exists_text hk (h k v hv)
    exact .inr ⟨t, rfl⟩

theorem Typed.count {limit : Nat} (hk : k.limit? = some limit) : CountIfAny limit (look k) := by
  cases hv : look k with
  | none => exact .inl rfl
  | some v =>
    obtain ⟨n, rfl, hn⟩ := Setting.exists_count hk (h k v hv)
    exact .inr ⟨n, rfl, hn⟩

theorem Typed.text_textOr (hk : k.limit? = none) (absent : String) :
    Value.text (textOr absent (look k)) = (look k).getD (.text absent) := by
  rcases h.text hk with hv | ⟨t, hv⟩ <;> rw [hv] <;> rfl

theorem Typed.countOr_le {limit : Nat} (hk : k.limit? = some limit) {absent : Nat}
    (habsent : absent ≤ limit) : countOr absent (look k) ≤ limit := by
  rcases h.count hk with hv | ⟨n, hv, hn⟩
  · rw [hv]
    exact habsent
  · rw [hv]
    exact hn

theorem Typed.integer_countOr {limit : Nat} (hk : k.limit? = some limit) (absent : Nat) :
    Value.integer (countOr absent (look k)) = (look k).getD (.integer absent) := by
  rcases h.count hk with hv | ⟨n, hv, -⟩ <;> rw [hv] <;> rfl

theorem Typed.integer_port (hk : k.limit? = some (2 ^ 16 - 1)) {absent : Nat}
    (habsent : absent ≤ 2 ^ 16 - 1) :
    Value.integer (UInt16.ofNat (countOr absent (look k))).toNat =
      (look k).getD (.integer absent) := by
  have hle := h.countOr_le hk habsent
  rw [UInt16.toNat_ofNat', Nat.mod_eq_of_lt (by omega), h.integer_countOr hk]

theorem Typed.integer_word (hk : k.limit? = some (2 ^ 63 - 1)) {absent : Nat}
    (habsent : absent ≤ 2 ^ 63 - 1) :
    Value.integer (UInt64.ofNat (countOr absent (look k))).toNat =
      (look k).getD (.integer absent) := by
  have hle := h.countOr_le hk habsent
  rw [UInt64.toNat_ofNat', Nat.mod_eq_of_lt (by omega), h.integer_countOr hk]

theorem Typed.value_ofFound (k : Setting) : k.value (ofFound look) = (look k).getD k.preset := by
  cases k with
  | rpcHost => exact h.text_textOr rfl _
  | rpcPort => exact h.integer_port rfl (by decide)
  | httpHost => exact h.text_textOr rfl _
  | httpPort => exact h.integer_port rfl (by decide)
  | timeoutSecs => exact h.integer_word rfl (by decide)
  | sweepIntervalSecs => exact h.integer_word rfl (by decide)
  | pollIntervalMs => exact h.integer_word rfl (by decide)
  | maxConcurrentJobs => exact h.integer_word rfl (by decide)
  | apiKey =>
    change (keyOf (look .apiKey)).elim .null .text = (look .apiKey).getD .null
    rcases h.text (k := .apiKey) rfl with hv | ⟨t, hv⟩ <;> rw [hv] <;> rfl
  | level => exact h.text_textOr rfl _

end

/-! ### Reading sections -/

/-- The section in a table. -/
def sectionOf (ms : List (String × Value)) : Section :=
  fun name _ => (ms.lookup name).map fun v => ("." ++ name, v)

section
variable {ms : List (String × Value)} {key name : String} {place : Nat}

theorem get_sectionOf {α : Type} {absent result : α} {convert? : Value → Option α}
    (h : (ms.lookup name).elim (some absent) convert? = some result) :
    (sectionOf ms).get key name place absent convert? = .ok result := by
  rw [Section.get, sectionOf]
  cases hv : ms.lookup name with
  | none =>
    rw [hv] at h
    exact congrArg Except.ok (Option.some.inj h)
  | some v =>
    rw [hv, Option.elim_some] at h
    simp only [Option.map_some, h]

theorem text_sectionOf (h : TextIfAny (ms.lookup name)) (absent : String) :
    (sectionOf ms).text key name place absent = .ok (textOr absent (ms.lookup name)) := by
  refine get_sectionOf ?_
  rcases h with h | ⟨t, h⟩ <;> rw [h] <;> rfl

theorem text?_sectionOf (h : TextIfAny (ms.lookup name)) :
    (sectionOf ms).text? key name place = .ok (keyOf (ms.lookup name)) := by
  refine get_sectionOf ?_
  rcases h with h | ⟨t, h⟩ <;> rw [h] <;> rfl

theorem count?_integer {limit n : Nat} (h : n ≤ limit) :
    (Value.integer n).count? limit = some n := by
  have hsign : (0 : Int) ≤ n := Int.natCast_nonneg n
  simp only [Value.count?, if_pos hsign, Int.toNat_natCast, Option.filter_some, h, decide_true,
    if_true]

theorem word_sectionOf (h : CountIfAny (2 ^ 63 - 1) (ms.lookup name)) (absent : Nat) :
    (sectionOf ms).word key name place (.ofNat absent) =
      .ok (.ofNat (countOr absent (ms.lookup name))) := by
  refine get_sectionOf ?_
  rcases h with h | ⟨n, h, hn⟩
  · rw [h]
    rfl
  · rw [h, Option.elim_some, count?_integer (hn.trans (by decide))]
    rfl

theorem port_sectionOf (h : CountIfAny (2 ^ 16 - 1) (ms.lookup name)) (absent : Nat) :
    (sectionOf ms).port key name place (.ofNat absent) =
      .ok (.ofNat (countOr absent (ms.lookup name))) := by
  refine get_sectionOf ?_
  rcases h with h | ⟨n, h, hn⟩
  · rw [h]
    rfl
  · rw [h, Option.elim_some, count?_integer hn]
    rfl

theorem listener_sectionOf (hhost : TextIfAny (ms.lookup "host"))
    (hport : CountIfAny (2 ^ 16 - 1) (ms.lookup "port")) :
    (sectionOf ms).listener key = .ok
      { host := textOr "0.0.0.0" (ms.lookup "host")
        port := .ofNat (countOr 8080 (ms.lookup "port")) } := by
  have hread : (sectionOf ms).port key "port" 1 8080 = .ok (.ofNat (countOr 8080 _)) :=
    port_sectionOf hport 8080
  simp only [Section.listener, text_sectionOf hhost, hread, bind, Except.bind, pure, Except.pure]

theorem heartbeat_sectionOf (htimeout : CountIfAny (2 ^ 63 - 1) (ms.lookup "timeout_secs"))
    (hsweep : CountIfAny (2 ^ 63 - 1) (ms.lookup "sweep_interval_secs")) :
    (sectionOf ms).heartbeat key = .ok
      { timeoutSecs := .ofNat (countOr 30 (ms.lookup "timeout_secs"))
        sweepIntervalSecs := .ofNat (countOr 10 (ms.lookup "sweep_interval_secs")) } := by
  have hread : (sectionOf ms).word key "timeout_secs" 0 30 = .ok (.ofNat (countOr 30 _)) :=
    word_sectionOf htimeout 30
  have hread' : (sectionOf ms).word key "sweep_interval_secs" 1 10 = .ok (.ofNat (countOr 10 _)) :=
    word_sectionOf hsweep 10
  simp only [Section.heartbeat, hread, hread', bind, Except.bind, pure, Except.pure]

theorem processor_sectionOf (hpoll : CountIfAny (2 ^ 63 - 1) (ms.lookup "poll_interval_ms"))
    (hjobs : CountIfAny (2 ^ 63 - 1) (ms.lookup "max_concurrent_jobs")) :
    (sectionOf ms).processor key = .ok
      { pollIntervalMs := .ofNat (countOr 100 (ms.lookup "poll_interval_ms"))
        maxConcurrentJobs := .ofNat (countOr 64 (ms.lookup "max_concurrent_jobs")) } := by
  have hread : (sectionOf ms).word key "poll_interval_ms" 0 100 = .ok (.ofNat (countOr 100 _)) :=
    word_sectionOf hpoll 100
  have hread' : (sectionOf ms).word key "max_concurrent_jobs" 1 64 = .ok (.ofNat (countOr 64 _)) :=
    word_sectionOf hjobs 64
  simp only [Section.processor, hread, hread', bind, Except.bind, pure, Except.pure]

theorem auth_sectionOf (hkey : TextIfAny (ms.lookup "api_key")) :
    (sectionOf ms).auth key = .ok { apiKey := keyOf (ms.lookup "api_key") } := by
  simp only [Section.auth, text?_sectionOf hkey, bind, Except.bind, pure, Except.pure]

theorem logging_sectionOf (hlevel : TextIfAny (ms.lookup "level")) :
    (sectionOf ms).logging key = .ok { level := textOr "info" (ms.lookup "level") } := by
  simp only [Section.logging, text_sectionOf hlevel, bind, Except.bind, pure, Except.pure]

variable {root : Value} {k : Setting}

theorem found_of_none (h : root.get? k.place.1 = none) : found root k = none := by
  rw [found, Value.setting?, h, Option.bind_none]

theorem found_of_table (h : root.get? k.place.1 = some (.table ms)) :
    found root k = ms.lookup k.place.2 := by
  rw [found, Value.setting?, h, Option.bind_some, Value.get?, Value.members]

theorem readSection_eq {α : Type} {kind : String} {absent result : α}
    {convert : Section → String → Except SettingsFault α}
    (htable : ∀ w, root.get? key = some w → ∃ ms, w = .table ms)
    (hnone : root.get? key = none → absent = result)
    (hsome : ∀ ms, root.get? key = some (.table ms) → convert (sectionOf ms) key = .ok result) :
    readSection root key kind absent convert = .ok result := by
  unfold readSection
  cases hsect : root.get? key with
  | none =>
    have hlookup : root.members.lookup key = none := hsect
    rw [hlookup, hnone hsect]
  | some w =>
    have hlookup : root.members.lookup key = some w := hsect
    obtain ⟨ms, rfl⟩ := htable w hsect
    rw [hlookup]
    exact hsome ms hsect

theorem countOr_of_some {limit : Nat} {v : Option Value} (h : CountIfAny limit v)
    (hsome : v.isSome = true) (absent absent' : Nat) : countOr absent v = countOr absent' v := by
  rcases h with rfl | ⟨n, rfl, -⟩
  · cases hsome
  · rfl

section
variable (htable : ∀ sect w, root.get? sect = some w → ∃ ms, w = .table ms)
  (h : Typed (found root))
include htable h

/-- The control surface has a port of its own, so its section must not leave it to the defaults of
sections. -/
theorem readSection_rpc (hport : (found root .rpcPort).isSome = true) :
    readSection root "rpc" "ListenConfig" .forControl Section.listener =
      .ok (ofFound (found root)).rpc := by
  have hhost := h.text (k := .rpcHost) rfl
  have hcount := h.count (k := .rpcPort) rfl
  rw [ofFound, ← countOr_of_some hcount hport 8080]
  refine readSection_eq (htable _) (fun hnone => ?_) fun ms hms => ?_
  · rw [found_of_none (k := .rpcPort) hnone] at hport
    cases hport
  · rw [found_of_table (k := .rpcHost) hms] at hhost ⊢
    rw [found_of_table (k := .rpcPort) hms] at hcount ⊢
    exact listener_sectionOf hhost hcount

theorem readSection_http :
    readSection root "http" "ListenConfig" {} Section.listener =
      .ok (ofFound (found root)).http := by
  have hhost := h.text (k := .httpHost) rfl
  have hcount := h.count (k := .httpPort) rfl
  rw [ofFound]
  refine readSection_eq (htable _) (fun hnone => ?_) fun ms hms => ?_
  · rw [found_of_none (k := .httpHost) hnone, found_of_none (k := .httpPort) hnone]
    rfl
  · rw [found_of_table (k := .httpHost) hms] at hhost ⊢
    rw [found_of_table (k := .httpPort) hms] at hcount ⊢
    exact listener_sectionOf hhost hcount

theorem readSection_heartbeat :
    readSection root "heartbeat" "HeartbeatConfig" {} Section.heartbeat =
      .ok (ofFound (found root)).heartbeat := by
  have htimeout := h.count (k := .timeoutSecs) rfl
  have hsweep := h.count (k := .sweepIntervalSecs) rfl
  rw [ofFound]
  refine readSection_eq (htable _) (fun hnone => ?_) fun ms hms => ?_
  · rw [found_of_none (k := .timeoutSecs) hnone, found_of_none (k := .sweepIntervalSecs) hnone]
    rfl
  · rw [found_of_table (k := .timeoutSecs) hms] at htimeout ⊢
    rw [found_of_table (k := .sweepIntervalSecs) hms] at hsweep ⊢
    exact heartbeat_sectionOf htimeout hsweep

theorem readSection_processor :
    readSection root "processor" "ProcessorConfig" {} Section.processor =
      .ok (ofFound (found root)).processor := by
  have hpoll := h.count (k := .pollIntervalMs) rfl
  have hjobs := h.count (k := .maxConcurrentJobs) rfl
  rw [ofFound]
  refine readSection_eq (htable _) (fun hnone => ?_) fun ms hms => ?_
  · rw [found_of_none (k := .pollIntervalMs) hnone, found_of_none (k := .maxConcurrentJobs) hnone]
    rfl
  · rw [found_of_table (k := .pollIntervalMs) hms] at hpoll ⊢
    rw [found_of_table (k := .maxConcurrentJobs) hms] at hjobs ⊢
    exact processor_sectionOf hpoll hjobs

theorem readSection_auth_eq :
    readSection root "auth" "AuthConfig" {} Section.auth = .ok (ofFound (found root)).auth := by
  have hkey := h.text (k := .apiKey) rfl
  rw [ofFound]
  refine readSection_eq (htable _) (fun hnone => ?_) fun ms hms => ?_
  · rw [found_of_none (k := .apiKey) hnone]
    rfl
  · rw [found_of_table (k := .apiKey) hms] at hkey ⊢
    exact auth_sectionOf hkey

theorem readSection_logging :
    readSection root "logging" "LoggingConfig" {} Section.logging =
      .ok (ofFound (found root)).logging := by
  have hlevel := h.text (k := .level) rfl
  rw [ofFound]
  refine readSection_eq (htable _) (fun hnone => ?_) fun ms hms => ?_
  · rw [found_of_none (k := .level) hnone]
    rfl
  · rw [found_of_table (k := .level) hms] at hlevel ⊢
    exact logging_sectionOf hlevel

/-- A tree of sections with settings of their own kinds is read as these settings, and what it lacks
is preset. -/
theorem ofValue_eq (hport : (found root .rpcPort).isSome = true) :
    ofValue root = .ok (ofFound (found root)) := by
  simp only [ofValue, readSection_rpc htable h hport, readSection_http htable h,
    readSection_heartbeat htable h, readSection_processor htable h, readSection_auth_eq htable h,
    readSection_logging htable h, bind, Except.bind, pure, Except.pure]

end

end

end Settings

end InferenceFleet
