import InferenceFleet.Proofs.Except
import InferenceFleet.Proofs.Settings.Merged
import InferenceFleet.Proofs.Surfaces.Key
import InferenceFleet.Proofs.Text.Utf8

/-!
# The key that a variable sets

A key from the environment is what the variable stands for, written out again, and clients have to
present that (`load_key`). It is another one than the variable says where the variable is read as a
number with a different text: a key of digits loses its zeros in front (`key_loses_zeros`), and only
the shorter one opens the gateway.
-/

namespace InferenceFleet

/-! ### Presenting a token -/

namespace Gateway.ApiKey
variable {key token : String}

/-- The value of an `Authorization` header with the token. -/
def bearer (token : String) : List UInt8 := Utf8.encode ("Bearer " ++ token)

theorem isBlank_of_graphic {c : Char} (h : 0x21 ≤ c.toNat ∧ c.toNat ≤ 0x7E) :
    isBlank c = false := by
  unfold isBlank
  simp only [Bool.or_eq_false_iff, Bool.and_eq_false_iff, decide_eq_false_iff_not,
    beq_eq_false_iff_ne]
  omega

/-- The blank behind the scheme tells the value from a key. -/
theorem not_graphic_bearer (token : String) : ¬ IsGraphic ("Bearer " ++ token) := by
  intro h
  have hrange := h ' ' (by rw [String.toList_append]; exact List.mem_append_left _ (by decide))
  revert hrange
  decide

section
variable (h : IsToken token)
include h

theorem trimmed_bearer : trimmed ("Bearer " ++ token) = "Bearer " ++ token := by
  have hne : token.toList ≠ [] := fun hnil => h.nonempty (String.toList_eq_nil_iff.1 hnil)
  obtain ⟨cs, d, hlast⟩ : ∃ cs d, token.toList = cs ++ [d] :=
    ⟨_, _, (List.dropLast_append_getLast hne).symm⟩
  have hfirst : isBlank 'B' = false := by decide
  have hd : isBlank d = false := isBlank_of_graphic (h.graphic d (by rw [hlast]; simp))
  have hcs : ("Bearer " ++ token).toList = 'B' :: ("earer ".toList ++ token.toList) := by
    rw [String.toList_append]
    rfl
  have hends : 'B' :: ("earer ".toList ++ token.toList) =
      ('B' :: ("earer ".toList ++ cs)) ++ [d] := by
    rw [hlast, List.cons_append, List.append_assoc]
  rw [trimmed, hcs, trimBlanks_eq hfirst hd hends, ← hcs, String.ofList_toList]

theorem bearer_range : ∀ c ∈ ("Bearer " ++ token).toList, 0x20 ≤ c.toNat ∧ c.toNat ≤ 0x7E := by
  have hscheme : ("Bearer ".toList.all fun c => 0x20 ≤ c.toNat ∧ c.toNat ≤ 0x7E) = true := by
    decide
  intro c hc
  rw [String.toList_append] at hc
  rcases List.mem_append.1 hc with hc | hc
  · exact of_decide_eq_true (List.all_eq_true.1 hscheme c hc)
  · have hrange := h.graphic c hc
    omega

theorem bearer_eq : bearer token = ("Bearer " ++ token).toList.map fun c => UInt8.ofNat c.toNat :=
  Utf8.encode_ascii fun c hc => by
    have hrange := bearer_range h c hc
    omega

theorem toNat_bearer :
    ∀ c ∈ ("Bearer " ++ token).toList, (UInt8.ofNat c.toNat).toNat = c.toNat := by
  intro c hc
  have hrange := bearer_range h c hc
  exact Utf8.toNat_ofNat (by omega)

theorem bearer_plain : ∀ b ∈ bearer token, b = 9 ∨ 32 ≤ b ∧ b ≤ 126 := by
  rw [bearer_eq h]
  intro b hb
  obtain ⟨c, hc, rfl⟩ := List.mem_map.1 hb
  right
  rw [UInt8.le_iff_toNat_le, UInt8.le_iff_toNat_le, toNat_bearer h c hc]
  exact bearer_range h c hc

theorem text_bearer :
    String.ofList ((bearer token).map fun b => Char.ofNat b.toNat) = "Bearer " ++ token := by
  have hchars : (bearer token).map (fun b => Char.ofNat b.toNat) = ("Bearer " ++ token).toList := by
    rw [bearer_eq h, List.map_map]
    refine (List.map_congr_left fun c hc => ?_).trans (List.map_id _)
    rw [Function.comp_apply, toNat_bearer h c hc, Char.ofNat_toNat, id]
  rw [hchars, String.ofList_toList]

theorem presents_bearer (hkey : IsToken key) : Presents key [bearer token] ↔ token = key := by
  have hsk : IsGraphic "sk-" := by decide
  constructor
  · rintro ⟨value, rest, hvalue, -, htext⟩
    cases hvalue
    rw [text_bearer h, trimmed_bearer h] at htext
    simp only [List.mem_cons, List.not_mem_nil, or_false] at htext
    rcases htext with hbare | hbearer | hsecret
    · exact absurd (hbare ▸ hkey.graphic) (not_graphic_bearer token)
    · exact (String.append_right_inj _).1 hbearer
    · exact absurd (hsecret ▸ hsk.append hkey.graphic) (not_graphic_bearer token)
  · rintro rfl
    refine ⟨bearer token, [], rfl, bearer_plain h, ?_⟩
    rw [text_bearer h, trimmed_bearer h]
    exact List.mem_cons_of_mem _ List.mem_cons_self

theorem authenticate_bearer (hkey : IsToken key) :
    (ofSetting (some key)).authenticate [bearer token] = .ok () ↔ token = key := by
  rw [← presents_bearer h hkey]
  by_cases hpresents : Presents key [bearer token]
  · rw [authenticate_of_presents hkey.nonempty hpresents]
    exact iff_of_true rfl hpresents
  · rw [authenticate_of_not_presents hkey.nonempty hpresents]
    exact iff_of_false (fun hok => by cases hok) hpresents

end

end Gateway.ApiKey

namespace Settings
open Gateway
variable {files : Files} {name k : String} {before after environment : List (String × String)}
  {s : Settings} {root v : Value}

/-! ### From the tree to the setting -/

theorem Section.text?_of_some {sect : Section} {key name ending t : String} {place : Nat}
    (hgiven : sect name place = some (ending, v)) (hnull : v ≠ .null) (htext : v.text? = some t) :
    sect.text? key name place = .ok (some t) := by
  rw [Section.text?, Section.get, hgiven]
  cases v with
  | null => exact absurd rfl hnull
  | _ =>
    dsimp only
    rw [htext]
    rfl

theorem readSection_auth (h : ofValue root = .ok s) :
    readSection root "auth" "AuthConfig" {} Section.auth = .ok s.auth := by
  rw [ofValue] at h
  obtain ⟨rpc, -, h⟩ := exists_of_bind h
  obtain ⟨http, -, h⟩ := exists_of_bind h
  obtain ⟨heartbeat, -, h⟩ := exists_of_bind h
  obtain ⟨processor, -, h⟩ := exists_of_bind h
  obtain ⟨auth, hauth, h⟩ := exists_of_bind h
  obtain ⟨logging, -, h⟩ := exists_of_bind h
  cases h
  exact hauth

theorem apiKey_of_holds {key : String} (hroot : Holds root "auth" "api_key" v) (hnull : v ≠ .null)
    (htext : v.text? = some key) (h : ofValue root = .ok s) : s.auth.apiKey = some key := by
  obtain ⟨w, hsect, hkey⟩ := hroot
  obtain ⟨ms, rfl⟩ := Value.exists_table hkey
  have hlookup : root.members.lookup "auth" = some (.table ms) := hsect
  have hmember : ms.lookup "api_key" = some v := hkey
  have hauth := readSection_auth h
  rw [readSection, hlookup] at hauth
  obtain ⟨sect, hsection, hauth⟩ := exists_of_bind hauth
  cases hsection
  obtain ⟨key', hget, hauth⟩ := exists_of_bind hauth
  have hgiven : ((ms.lookup "api_key").map fun v => ("." ++ "api_key", v)) =
      some (".api_key", v) := by
    rw [hmember]
    rfl
  rw [Section.text?_of_some hgiven hnull htext] at hget
  cases hget
  exact congrArg AuthSettings.apiKey (Except.ok.inj hauth).symm

theorem of_load (h : load files name environment = .ok s) :
    ∃ file, readFile files name = .ok file ∧
      ofValue (merged file (ofEnvironment environment)) = .ok s := by
  obtain ⟨file, hfile, h⟩ := exists_of_bind h
  obtain ⟨t, hvalue, h⟩ := exists_of_bind h
  refine ⟨file, hfile, ?_⟩
  rw [checked] at h
  split at h
  · cases h
  · cases h
    exact hvalue

/-! ### The key -/

/-- The variable that sets the key. -/
def keyVariable : String := "FLEET__AUTH__API_KEY"

/-- The variable sets something else than the key and its section, or nothing. -/
def SparesKey (name : String) : Prop :=
  ∀ key, variableKey? name = some key → Spares "auth" "api_key" (path key)

theorem variableKey?_keyVariable : variableKey? keyVariable = some "auth.api_key" := by
  decide +kernel

theorem path_apiKey : path "auth.api_key" = [.member "auth", .member "api_key"] := rfl

/-- Settings that load with a token in the variable of the key, whatever else the file, the
variables before it and those behind it set: their key is the text of what the token stands for, and
a client that presents a token is let in if it is that. The key is the token itself if a character
is in it that no number has and it is none of the names; a token of digits for 64 bits is kept if it
has no zero in front.

Keys of the file with the Kelvin sign are left out: `auth.api_key` with that sign for its `k` is no
path, but its lower-case form is, and it may be put over the variable. -/
theorem load_key (hk : IsToken k) (hafter : ∀ e ∈ after, SparesKey e.1)
    (hfile : ∀ file, readFile files name = .ok file → ∀ m ∈ file, ∀ c ∈ m.1.toList, c ≠ '\u212A')
    (h : load files name (before ++ (keyVariable, k) :: after) = .ok s) :
    ∃ key, s.auth.apiKey = some key ∧ (Value.ofVariable k).text? = some key ∧
      (∀ token, IsToken token →
        ((ApiKey.ofSetting s.auth.apiKey).authenticate [ApiKey.bearer token] = .ok () ↔
          token = key)) ∧
      ((∃ c ∈ k.toList, ¬ IsNumeric c) → lowered k ∉ ["true", "false"] →
        lowered (String.ofList (Decimal.sign k.toList).2) ∉ realNames → key = k) ∧
      ∀ ds : List Digit, k = String.ofList (ds.map Digit.toChar) → Digit.value ds < 2 ^ 63 →
        key = decimal (Digit.value ds) ∧ (key = k ↔ ds = [0] ∨ ds.head? ≠ some 0) := by
  obtain ⟨file, hread, hvalue⟩ := of_load h
  have hreads := reads_ofVariable k
  obtain ⟨key, htext, htoken⟩ := hreads.exists_text
  have hsect : foldKey "auth" = "auth" := by decide
  have hmember : foldKey "api_key" = "api_key" := by decide
  have hholds : Holds (merged file (ofEnvironment (before ++ (keyVariable, k) :: after))) "auth"
      "api_key" (.ofVariable k) :=
    holds_of_variable variableKey?_keyVariable path_apiKey hsect hmember (hfile file hread) hafter
  have hkey : s.auth.apiKey = some key := apiKey_of_holds hholds hreads.ne_null htext hvalue
  refine ⟨key, hkey, htext, fun token ht => ?_, ?_, ?_⟩
  · rw [hkey]
    exact ApiKey.authenticate_bearer ht (htoken hk)
  · rintro ⟨c, hc, hforeign⟩ hflag hname
    rw [ofVariable_eq_text hc hforeign hflag hname] at htext
    exact (Option.some.inj htext).symm
  · rintro ds rfl hword
    have hds : ds ≠ [] := fun hnil => hk.nonempty (by rw [hnil]; rfl)
    rw [text?_ofVariable_digits hds hword] at htext
    obtain rfl := Option.some.inj htext
    exact ⟨rfl, decimal_value_eq_iff hds⟩

/-- A key with a letter wins over the one in the file and is kept. -/
theorem load_key_over_file :
    let files := [("control-plane.toml", "[auth]\napi_key = \"written\"\n")]
    let before := [("FLEET__AUTH", "none")]
    let after := [("PATH", "/bin"), ("FLEET__HTTP__PORT", "8081")]
    IsToken "k-07" ∧ (∀ e ∈ after, SparesKey e.1) ∧
      ∃ s, load files "control-plane" (before ++ (keyVariable, "k-07") :: after) = .ok s ∧
        s.auth.apiKey = some "k-07" := by
  have hloads : (load [("control-plane.toml", "[auth]\napi_key = \"written\"\n")]
      "control-plane" [("FLEET__AUTH", "none"), (keyVariable, "k-07"), ("PATH", "/bin"),
        ("FLEET__HTTP__PORT", "8081")]).toOption.isSome = true := by
    decide +kernel
  have hnames : ((readFile [("control-plane.toml", "[auth]\napi_key = \"written\"\n")]
      "control-plane").toOption.getD []).all (fun m => m.1.toList.all (· != '\u212A')) = true := by
    decide +kernel
  have hforeign : variableKey? "PATH" = none ∧
      variableKey? "FLEET__HTTP__PORT" = some "http.port" := by
    decide +kernel
  intro files before after
  have hk : IsToken "k-07" := ⟨by decide, by decide⟩
  have hafter : ∀ e ∈ after, SparesKey e.1 := by
    refine List.forall_mem_cons.2 ⟨fun key hkey => ?_, ?_⟩
    · rw [hforeign.1] at hkey
      cases hkey
    · refine List.forall_mem_singleton.2 fun key hkey => ?_
      rw [hforeign.2] at hkey
      cases hkey
      exact ⟨"http", [.member "port"], rfl, .inl (by decide)⟩
  have hfile : ∀ file, readFile files "control-plane" = .ok file →
      ∀ m ∈ file, ∀ c ∈ m.1.toList, c ≠ '\u212A' := by
    intro file hread m hm c hc
    rw [hread] at hnames
    exact bne_iff_ne.1 (List.all_eq_true.1 (List.all_eq_true.1 hnames m hm) c hc)
  obtain ⟨s, hs⟩ := Option.isSome_iff_exists.1 hloads
  have hs : load files "control-plane" (before ++ (keyVariable, "k-07") :: after) = .ok s :=
    of_toOption hs
  obtain ⟨key, hkey, -, -, hkept, -⟩ := load_key hk hafter hfile hs
  refine ⟨hk, hafter, s, hs, ?_⟩
  rw [hkey, hkept ⟨'k', by decide, by unfold IsNumeric; decide⟩ (by decide) (by decide)]

/-- A key of digits that begins with a zero is loaded as another one, which opens the gateway; the
key itself does not. -/
theorem key_loses_zeros :
    ∃ s, load [] defaultPath [(keyVariable, "007")] = .ok s ∧ s.auth.apiKey = some "7" ∧
      (ApiKey.ofSetting s.auth.apiKey).authenticate [ApiKey.bearer "007"] = .error .invalidKey ∧
      (ApiKey.ofSetting s.auth.apiKey).authenticate [ApiKey.bearer "7"] = .ok () := by
  have hloads : ((load [] defaultPath [(keyVariable, "007")]).toOption.map
      fun s => s.auth.apiKey) = some (some "7") := by
    decide +kernel
  have hbarred : (ApiKey.ofSetting (some "7")).authenticate [ApiKey.bearer "007"] =
      .error .invalidKey := by
    decide +kernel
  have hadmitted : (ApiKey.ofSetting (some "7")).authenticate [ApiKey.bearer "7"] = .ok () := by
    decide +kernel
  obtain ⟨s, hs, hkey⟩ := Option.map_eq_some_iff.1 hloads
  refine ⟨s, of_toOption hs, hkey, ?_⟩
  rw [hkey]
  exact ⟨hbarred, hadmitted⟩

end Settings

end InferenceFleet
