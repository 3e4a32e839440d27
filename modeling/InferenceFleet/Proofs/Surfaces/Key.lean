import InferenceFleet.Proofs.Surfaces.Failures

/-!
# What the gateway's key does

What `ApiKey.authenticate` asks of the first `Authorization` value is said byte for byte by
`ApiKey.Presents`. A request to a protected path that does not present the key gets an answer which
nothing but its method, path and headers goes into (`handle_barred`), and one that does is handled as
if there was no key (`handle_admitted`).
-/

namespace InferenceFleet.Gateway

open Http

namespace ApiKey
variable {k : String} {values values' : List (List UInt8)}

/-- The first value is plain text, and is the key but for blanks around it and a scheme before it. -/
def Presents (k : String) (values : List (List UInt8)) : Prop :=
  ∃ value rest, values = value :: rest ∧ (∀ b ∈ value, b = 9 ∨ 32 ≤ b ∧ b ≤ 126) ∧
    trimmed (String.ofList (value.map fun b => Char.ofNat b.toNat)) ∈
      [k, "Bearer " ++ k, "sk-" ++ k]

theorem isPlain_iff {b : UInt8} : isPlain b = true ↔ b = 9 ∨ 32 ≤ b ∧ b ≤ 126 := by
  have hbound : b < 127 ↔ b ≤ 126 := by
    rw [UInt8.lt_iff_toNat_lt, UInt8.le_iff_toNat_le]
    exact Nat.lt_succ_iff
  simp [isPlain, hbound]

theorem presents_iff {text : List Char} :
    presents k text = true ↔
      trimmed (String.ofList text) ∈ [k, "Bearer " ++ k, "sk-" ++ k] := by
  have hscheme : ∀ scheme : String, trimBlanks text = scheme.toList ++ k.toList ↔
      trimmed (String.ofList text) = scheme ++ k := by
    intro scheme
    rw [trimmed, String.toList_ofList, ← String.toList_append]
    constructor
    · intro h
      rw [h, String.ofList_toList]
    · intro h
      rw [← h, String.toList_ofList]
  simp only [presents, schemes, List.any_cons, List.any_nil, Bool.or_false, Bool.or_eq_true,
    beq_iff_eq, hscheme, String.empty_append, List.mem_cons, List.not_mem_nil, or_false]

theorem key?_ofSetting (hk : k ≠ "") : (ofSetting (some k)).key? = some k := by
  simp [ofSetting, Option.filter, hk]

theorem authenticate_of_presents (hk : k ≠ "") (h : Presents k values) :
    (ofSetting (some k)).authenticate values = .ok () := by
  obtain ⟨value, rest, rfl, hplain, htext⟩ := h
  have hall : value.all isPlain = true := List.all_eq_true.2 fun b hb => isPlain_iff.2 (hplain b hb)
  have hpresents := presents_iff.2 htext
  simp only [authenticate, key?_ofSetting hk, plainText?, if_pos hall, hpresents, if_true]

/-- Which fault it is shows only whether there is a value at all. -/
theorem authenticate_of_not_presents (hk : k ≠ "") (h : ¬ Presents k values) :
    (ofSetting (some k)).authenticate values =
      .error (if values.isEmpty then .missingHeader else .invalidKey) := by
  rw [authenticate, key?_ofSetting hk]
  cases values with
  | nil => rfl
  | cons value rest =>
    by_cases hall : value.all isPlain = true
    · have hbytes : ∀ b ∈ value, b = 9 ∨ 32 ≤ b ∧ b ≤ 126 := fun b hb =>
        isPlain_iff.1 (List.all_eq_true.1 hall b hb)
      have hother : ¬ presents k (value.map fun b => Char.ofNat b.toNat) = true := fun hpresents =>
        h ⟨value, rest, rfl, hbytes, presents_iff.1 hpresents⟩
      simp only [plainText?, if_pos hall, if_neg hother]
      rfl
    · simp only [plainText?, if_neg hall]
      rfl

theorem authenticate_congr (key : ApiKey) (h : values.head? = values'.head?) :
    key.authenticate values = key.authenticate values' := by
  cases values <;> cases values' <;> cases h <;> rfl

end ApiKey

/-- The paths that need a key, when one is configured. -/
def protectedPaths : List String := ["/v1/chat/completions", "/v1/embeddings", "/api/nodes"]

section
variable {f : Fleet} {agents : Agents} {key key' : ApiKey} {r r' : Request} {e : Endpoint}
  {fault : AuthFault}

theorem endpoint_of_protected {path : List Char} (h : String.ofList path ∈ protectedPaths) :
    ∃ e, Endpoint.ofPath? path = some e ∧ e.isProtected = true ∧
      (e.method = .get ↔ String.ofList path = "/api/nodes") := by
  simp only [protectedPaths, List.mem_cons, List.not_mem_nil, or_false] at h
  unfold Endpoint.ofPath?
  rcases h with h | h | h <;> rw [h]
  · exact ⟨.chat, by decide, rfl, by decide⟩
  · exact ⟨.embeddings, by decide, rfl, by decide⟩
  · exact ⟨.nodes, by decide, rfl, by decide⟩

/-- The answer to a client that is not let in. -/
def barred (fault : AuthFault) (e : Endpoint) (r : Request) : Response :=
  let refusal := fitted e r (Response.ofShape ErrorBody.shape 401 fault.body)
  openOrigin (if e.method.accepts r.method then refusal else methodNotAllowed e refusal)

theorem handle_barred (hmethod : r.method ≠ "OPTIONS") (hpath : Endpoint.ofPath? r.path = some e)
    (hprotected : e.isProtected = true)
    (h : key.authenticate (r.header "authorization") = .error fault) :
    handle f agents key r = (barred fault e r, f) := by
  have hother : ¬ (r.method == "OPTIONS") = true := fun h => hmethod (beq_iff_eq.1 h)
  rw [handle, if_neg hother]
  simp only [route, hpath, hprotected, if_true, h]
  rfl

/-- A key counts for nothing but whether the client is let in. -/
theorem handle_admitted
    (h : key.authenticate (r.header "authorization") = key'.authenticate (r.header "authorization")) :
    handle f agents key r = handle f agents key' r := by
  simp only [handle, route, h]

theorem handle_congr (hmethod : r'.method = r.method) (htarget : r'.target = r.target)
    (hbody : r'.body = r.body)
    (hvalue : (r'.header "authorization").head? = (r.header "authorization").head?) :
    handle f agents key r' = handle f agents key r := by
  have hpath : r'.path = r.path := by rw [Request.path, Request.path, htarget]
  simp only [handle, route, preflight, fitted, hmethod, hpath, hbody,
    ApiKey.authenticate_congr key hvalue]

end

/-- Like any answer to `HEAD`, that of a path which can be got comes without its body. -/
theorem barred_eq (fault : AuthFault) (e : Endpoint) (r : Request) :
    (barred fault e r).status = 401 ∧ ("content-type", jsonType) ∈ (barred fault e r).headers ∧
      (barred fault e r).body = if r.method = "HEAD" ∧ e.method = .get then ""
        else (ErrorBody.doc "authentication_error" fault.message).print := by
  let refusal := fitted e r (Response.ofShape ErrorBody.shape 401 fault.body)
  have hrefusal : refusal.status = 401 ∧ refusal.headers = [("content-type", jsonType)] ∧
      refusal.body = if r.method = "HEAD" ∧ e.method = .get then ""
        else (ErrorBody.doc "authentication_error" fault.message).print := by
    by_cases hhead : r.method = "HEAD" ∧ e.method = .get
    · rw [if_pos hhead]
      simp only [refusal, fitted, beq_iff_eq, if_pos hhead]
      exact ⟨rfl, rfl, rfl⟩
    · rw [if_neg hhead]
      simp only [refusal, fitted, beq_iff_eq, if_neg hhead]
      exact ⟨rfl, rfl, rfl⟩
  have hbarred : ∃ more, barred fault e r = { refusal with headers := refusal.headers ++ more } := by
    unfold barred
    split
    · exact ⟨_, rfl⟩
    · exact ⟨_, congrArg (fun headers => { refusal with headers }) (List.append_assoc ..)⟩
  obtain ⟨hstatus, hheaders, hbody⟩ := hrefusal
  obtain ⟨more, hmore⟩ := hbarred
  rw [hmore]
  refine ⟨hstatus, ?_, hbody⟩
  show _ ∈ refusal.headers ++ more
  rw [hheaders]
  exact List.mem_cons_self

/-- With a key configured, whatever comes to a protected path but a preflight: a client that does not
present the key gets an authentication error that no state and no body has a part in, and nothing
changes; one that does gets what it would get with no key; and the other headers, later values
included, are nothing to either. -/
theorem key_decides (k : String) (hk : k ≠ "") (r : Request) (hmethod : r.method ≠ "OPTIONS")
    (hpath : String.ofList r.path ∈ protectedPaths) :
    let key := ApiKey.ofSetting (some k)
    (¬ ApiKey.Presents k (r.header "authorization") →
      ∃ response message,
        (∀ f agents body, handle f agents key { r with body } = (response, f)) ∧
          response.status = 401 ∧ ("content-type", jsonType) ∈ response.headers ∧
          response.body = if r.method = "HEAD" ∧ String.ofList r.path = "/api/nodes" then ""
            else (ErrorBody.doc "authentication_error" message).print) ∧
    (ApiKey.Presents k (r.header "authorization") →
      ∀ f agents body, handle f agents key { r with body } =
        handle f agents (.ofSetting none) { r with body }) ∧
    ∀ r' : Request, r'.method = r.method → r'.target = r.target → r'.body = r.body →
      (r'.header "authorization").head? = (r.header "authorization").head? →
        ∀ f agents, handle f agents key r' = handle f agents key r := by
  intro key
  obtain ⟨e, he, hprotected, hget⟩ := endpoint_of_protected hpath
  refine ⟨fun habsent => ?_, fun hpresents f agents body => ?_, ?_⟩
  · obtain ⟨fault, hfault⟩ : ∃ fault, key.authenticate (r.header "authorization") = .error fault :=
      ⟨_, ApiKey.authenticate_of_not_presents hk habsent⟩
    obtain ⟨hstatus, hheader, hbody⟩ := barred_eq fault e r
    refine ⟨barred fault e r, fault.message, fun f agents body => ?_, hstatus, hheader, ?_⟩
    · exact handle_barred (r := { r with body }) hmethod he hprotected hfault
    · simp only [hbody, hget]
  · exact handle_admitted ((ApiKey.authenticate_of_presents hk hpresents).trans rfl)
  · intro r' hmethod' htarget hbody hvalue f agents
    exact handle_congr hmethod' htarget hbody hvalue

/-- A key that begins like a scheme: `sk-` followed by the key opens, the key without its own `sk-`
does not. -/
theorem key_decides_scheme :
    let f := Fleet.ofLimit 1
    let agents : Agents := ⟨fun _ => .ok (), fun _ _ => .ok [], fun _ _ => .ok {}⟩
    let ask (value : String) : Request :=
      { method := "GET", target := "/api/nodes", headers := [("Authorization", value.toUTF8.toList)] }
    let key := ApiKey.ofSetting (some "sk-a")
    ("sk-a" ≠ "" ∧ (ask "a").method ≠ "OPTIONS" ∧ String.ofList (ask "a").path ∈ protectedPaths) ∧
      (handle f agents key (ask "a")).1.status = 401 ∧
      handle f agents key (ask " sk-sk-a") = handle f agents (.ofSetting none) (ask " sk-sk-a") := by
  intro f agents ask key
  have hpath : ∀ value, String.ofList (ask value).path ∈ protectedPaths := by
    intro value
    show String.ofList ("/api/nodes".toList.takeWhile fun c => c != '?' && c != '#') ∈ protectedPaths
    decide +kernel
  have hmethod : ∀ value, (ask value).method ≠ "OPTIONS" := fun _ => show "GET" ≠ "OPTIONS" by decide
  have habsent : ¬ ApiKey.Presents "sk-a" ((ask "a").header "authorization") := by
    rintro ⟨value, rest, hvalue, -, htext⟩
    have hheader : (ask "a").header "authorization" = [[0x61]] := by decide +kernel
    rw [hheader] at hvalue
    cases hvalue
    revert htext
    decide +kernel
  have hpresents : ApiKey.Presents "sk-a" ((ask " sk-sk-a").header "authorization") :=
    ⟨" sk-sk-a".toUTF8.toList, [], by decide +kernel, by decide +kernel, by decide +kernel⟩
  obtain ⟨hbarred, -, -⟩ := key_decides "sk-a" (by decide) (ask "a") (hmethod _) (hpath _)
  obtain ⟨-, hadmitted, -⟩ := key_decides "sk-a" (by decide) (ask " sk-sk-a") (hmethod _) (hpath _)
  obtain ⟨response, message, hanswer, hstatus, -⟩ := hbarred habsent
  refine ⟨⟨by decide, hmethod _, hpath _⟩, ?_, hadmitted hpresents f agents []⟩
  have hfirst : handle f agents key (ask "a") = (response, f) := hanswer f agents []
  rw [hfirst]
  exact hstatus

end InferenceFleet.Gateway
