import InferenceFleet.Agent.Client
import InferenceFleet.Proofs.Except
import Mathlib.Data.List.TakeWhile

/-!
# Slashes at the end of a target

A full URL loses the slashes at its end, so with them or without them it is one base
(`urlOf_append_of_isUrl`). A host with a port keeps them: they begin a path behind the authority,
which the check of the URL passes over (`check_append`), and stay in the base. So the URLs at which
an agent is called have one slash before the path just if the base has none at its end.
-/

namespace InferenceFleet

/-- So many slashes. -/
def slashes (n : Nat) : List Char := List.replicate n '/'

namespace Url
variable {cs ds : List Char} {c : Char} {p : Char → Bool}

/-! ### Slashes behind an authority -/

theorem takeWhile_append_slashes (hslash : p '/' = false) (cs : List Char) (n : Nat) :
    (cs ++ slashes n).takeWhile p = cs.takeWhile p := by
  induction cs with
  | nil =>
    cases n with
    | zero => rfl
    | succ n => exact List.takeWhile_cons_of_neg (by rw [hslash]; exact Bool.false_ne_true)
  | cons c cs ih => rw [List.cons_append, List.takeWhile_cons, List.takeWhile_cons, ih]

/-- Of the rest of a URL only the authority counts. -/
theorem checkAuthority_congr (h : (cs.takeWhile fun c => !endsAuthority .web c) =
    ds.takeWhile fun c => !endsAuthority .web c) :
    checkAuthority .web cs = checkAuthority .web ds := by
  simp only [checkAuthority, h]
  generalize afterUser (ds.takeWhile fun c => !endsAuthority .web c) = r
  obtain ⟨user, place⟩ := r
  cases place with
  | nil =>
    -- Without a host nothing passes, whether or not something follows the authority.
    simp only [splitHost, List.isEmpty_nil, and_true, true_and, if_true]
    refine Eq.trans (b := .error .emptyHost) ?_ ?_
    · split <;> rfl
    · split <;> rfl
  | cons c place =>
    simp only [List.isEmpty_cons, Bool.false_eq_true, and_false, false_and, if_false]

theorem checkAuthority_append (cs : List Char) (n : Nat) :
    checkAuthority .web (cs ++ slashes n) = checkAuthority .web cs :=
  checkAuthority_congr (takeWhile_append_slashes (by decide) cs n)

theorem checkAuthority_nil : checkAuthority .web [] = .error .emptyHost := rfl

/-! ### What is stripped off -/

/-- A character that can begin or end a URL. -/
def IsInner (c : Char) : Prop := 0x20 < c.toNat

instance : DecidablePred IsInner := fun _ => Nat.decLt ..

theorem strip_eq_filter (hfirst : ∀ c ∈ cs.head?, IsInner c) (hlast : ∀ c ∈ cs.getLast?, IsInner c) :
    strip cs = cs.filter fun c => c != '\t' && c != '\n' && c != '\r' := by
  have hkept {ds : List Char} (h : ∀ c ∈ ds.head?, IsInner c) :
      ds.dropWhile (fun c => decide (c.toNat ≤ 0x20)) = ds := by
    refine List.dropWhile_eq_self_iff.2 fun hlength => ?_
    have hinner := h _ (List.head?_eq_getElem? ▸ List.getElem?_eq_getElem hlength)
    simpa [IsInner] using hinner
  rw [strip, hkept hfirst, hkept (by rwa [List.head?_reverse]), List.reverse_reverse]

/-- What stands before a host and a port in a URL. -/
def webMark : List Char := ['h', 't', 't', 'p', ':', '/', '/']

theorem splitScheme_webMark (cs : List Char) :
    splitScheme (webMark ++ cs) = some ("http", '/' :: '/' :: cs) := by
  have hlower : (String.ofList ['h', 't', 't', 'p']).toLower = "http" := by
    show (String.ofList ['h', 't', 't', 'p']).map Char.toLower = "http"
    rw [← String.toList_inj, String.toList_map, String.toList_ofList]
    rfl
  rw [← hlower]
  rfl

/-- What is no part of a URL, wherever it stands. -/
def isBreak (c : Char) : Bool := c == '\t' || c == '\n' || c == '\r'

theorem strip_webMark (h : ∀ c ∈ cs.getLast?, IsInner c) :
    strip (webMark ++ cs) = webMark ++ cs.filter (!isBreak ·) := by
  rw [strip_eq_filter]
  · have hbreak : (fun c : Char => c != '\t' && c != '\n' && c != '\r') = (!isBreak ·) := by
      funext c
      simp [isBreak, bne, Bool.and_assoc]
    rw [hbreak, List.filter_append]
    rfl
  · intro c hc
    obtain rfl : 'h' = c := Option.some.inj hc
    decide
  · intro c hc
    rw [List.getLast?_append] at hc
    cases hcs : cs.getLast? with
    | none =>
      rw [hcs] at hc
      obtain rfl : '/' = c := Option.some.inj hc
      decide
    | some d =>
      rw [hcs] at hc
      obtain rfl : d = c := Option.some.inj hc
      exact h d hcs

/-- What the check makes of `http://` and what follows it. -/
theorem check_webMark (h : ∀ c ∈ cs.getLast?, IsInner c) :
    check (String.ofList (webMark ++ cs)) =
      checkAuthority .web ((cs.filter (!isBreak ·)).dropWhile isSlash) := by
  rw [check, String.toList_ofList, strip_webMark h, splitScheme_webMark]
  rfl

theorem filter_slashes (n : Nat) : (slashes n).filter (!isBreak ·) = slashes n := by
  refine List.filter_eq_self.2 fun c hc => ?_
  rw [List.eq_of_mem_replicate hc]
  rfl

/-- A host and a port that are accepted are accepted with slashes behind them. -/
theorem check_append (h : ∀ c ∈ cs.getLast?, IsInner c)
    (hok : check (String.ofList (webMark ++ cs)) = .ok ()) (n : Nat) :
    check (String.ofList (webMark ++ (cs ++ slashes n))) = .ok () := by
  have hlast : ∀ c ∈ (cs ++ slashes n).getLast?, IsInner c := by
    intro c hc
    rw [List.getLast?_append] at hc
    cases hslashes : (slashes n).getLast? with
    | none =>
      rw [hslashes] at hc
      exact h c hc
    | some d =>
      rw [hslashes] at hc
      obtain rfl : d = c := Option.some.inj hc
      rw [List.eq_of_mem_replicate (List.mem_of_getLast? hslashes)]
      decide
  rw [check_webMark h] at hok
  have hnonempty : (cs.filter (!isBreak ·)).dropWhile isSlash ≠ [] := by
    intro hnil
    rw [hnil, checkAuthority_nil] at hok
    cases hok
  rw [check_webMark hlast, List.filter_append, filter_slashes, List.dropWhile_append,
    if_neg (by rwa [List.isEmpty_iff]), checkAuthority_append, hok]

end Url

namespace AgentAddress
variable {t : String} {cs : List Char}

/-- A full URL. -/
def IsUrl (t : String) : Prop := occurs schemeMark t.toList = true

def EndsInSlash (t : String) : Prop := t.toList.getLast? = some '/'

/-- A host, or a host and a port: no full URL, and ending in what can end a host or a port. -/
structure IsPlace (t : String) : Prop where
  notUrl : ¬ IsUrl t
  last : ∃ c, t.toList.getLast? = some c ∧ c ≠ ':' ∧ c ≠ '/' ∧ Url.IsInner c

/-- The text with slashes behind it. -/
def slashed (t : String) (n : Nat) : String := t ++ String.ofList (slashes n)

theorem toList_slashed (t : String) (n : Nat) : (slashed t n).toList = t.toList ++ slashes n := by
  rw [slashed, String.toList_append, String.toList_ofList]

theorem urlOf_of_isUrl (h : IsUrl t) : urlOf t = withoutSlashes t := if_pos h

theorem urlOf_of_not_isUrl (h : ¬ IsUrl t) : urlOf t = "http://" ++ t := if_neg h

/-! ### Full URLs -/

theorem occurs_append {part : List Char} (h : occurs part cs = true) (ds : List Char) :
    occurs part (cs ++ ds) = true := by
  induction cs with
  | nil =>
    obtain rfl : part = [] := List.isEmpty_iff.1 h
    cases ds <;> rfl
  | cons c cs ih =>
    rw [List.cons_append, occurs, Bool.or_eq_true]
    rw [occurs, Bool.or_eq_true] at h
    rcases h with h | h
    · exact .inl (List.isPrefixOf_iff_prefix.2
        ((List.isPrefixOf_iff_prefix.1 h).trans (List.prefix_append (c :: cs) ds)))
    · exact .inr (ih h)

theorem IsUrl.slashed (h : IsUrl t) (n : Nat) : IsUrl (slashed t n) := by
  rw [IsUrl, toList_slashed]
  exact occurs_append h _

theorem withoutSlashes_slashed (h : ¬ EndsInSlash t) (n : Nat) :
    withoutSlashes (slashed t n) = t := by
  have hslashes : ∀ c ∈ (slashes n).reverse, decide (c = '/') = true := by
    intro c hc
    rw [List.eq_of_mem_replicate (List.mem_reverse.1 hc)]
    rfl
  have hrest : t.toList.reverse.dropWhile (fun c => decide (c = '/')) = t.toList.reverse := by
    refine List.dropWhile_eq_self_iff.2 fun hlength hslash => h ?_
    rw [EndsInSlash, ← List.head?_reverse, List.head?_eq_getElem?,
      List.getElem?_eq_getElem hlength, of_decide_eq_true hslash]
  rw [withoutSlashes, toList_slashed, List.reverse_append, List.dropWhile_append_of_pos hslashes,
    hrest, List.reverse_reverse, String.ofList_toList]

theorem not_endsInSlash_withoutSlashes (t : String) : ¬ EndsInSlash (withoutSlashes t) := by
  intro h
  rw [EndsInSlash, withoutSlashes, String.toList_ofList, List.getLast?_reverse] at h
  have hfirst := List.head?_dropWhile_not (fun c => decide (c = '/')) t.toList.reverse
  rw [h] at hfirst
  exact absurd hfirst (by decide)

/-- A full URL stands for the same with slashes behind it. -/
theorem urlOf_slashed_of_isUrl (h : IsUrl t) (hend : ¬ EndsInSlash t) (n : Nat) :
    urlOf (slashed t n) = urlOf t := by
  have hself := withoutSlashes_slashed hend 0
  have hzero : slashed t 0 = t := String.append_empty
  rw [hzero] at hself
  rw [urlOf_of_isUrl (h.slashed n), urlOf_of_isUrl h, withoutSlashes_slashed hend, hself]

/-! ### Hosts and ports -/

theorem occurs_slashes (n : Nat) : occurs schemeMark (slashes n) = false := by
  induction n with
  | zero => rfl
  | succ n ih => exact ih

theorem occurs_append_slashes (h : occurs schemeMark cs = false)
    (hlast : ∃ c, cs.getLast? = some c ∧ c ≠ ':' ∧ c ≠ '/') (n : Nat) :
    occurs schemeMark (cs ++ slashes n) = false := by
  induction cs with
  | nil => exact occurs_slashes n
  | cons c cs ih =>
    obtain ⟨hmark, hrest⟩ := Bool.or_eq_false_iff.1 h
    obtain ⟨last, hlast, hcolon, hslash⟩ := hlast
    refine Bool.or_eq_false_iff.2 ⟨?_, ?_⟩
    · -- A mark that begins here would need the last character or one behind it to be its own.
      rcases cs with _ | ⟨d, _ | ⟨e, cs⟩⟩
      · obtain rfl : c = last := Option.some.inj hlast
        simp [schemeMark, List.isPrefixOf, Ne.symm hcolon]
      · obtain rfl : d = last := Option.some.inj hlast
        simp [schemeMark, List.isPrefixOf, Ne.symm hslash]
      · simpa [schemeMark, List.isPrefixOf] using hmark
    · cases cs with
      | nil => exact occurs_slashes n
      | cons d cs => exact ih hrest ⟨last, by rwa [List.getLast?_cons_cons] at hlast, hcolon, hslash⟩

theorem IsPlace.not_isUrl_slashed (h : IsPlace t) (n : Nat) : ¬ IsUrl (slashed t n) := by
  obtain ⟨c, hc, hcolon, hslash, -⟩ := h.last
  rw [IsUrl, toList_slashed, occurs_append_slashes (Bool.eq_false_iff.2 h.notUrl)
    ⟨c, hc, hcolon, hslash⟩]
  exact Bool.false_ne_true

theorem urlOf_place (h : ¬ IsUrl t) : urlOf t = String.ofList (Url.webMark ++ t.toList) := by
  rw [urlOf_of_not_isUrl h, ← String.toList_inj, String.toList_append, String.toList_ofList,
    String.toList_ofList]
  rfl

/-! ### Bases -/

theorem baseUrl_eq_ok_iff {base : String} :
    baseUrl t = .ok base ↔ Url.check (urlOf t) = .ok () ∧ base = urlOf t := by
  rw [baseUrl]
  cases Url.check (urlOf t) with
  | ok _ => exact ⟨fun h => ⟨rfl, (Except.ok.inj h).symm⟩, fun h => by rw [h.2]⟩
  | error fault => exact iff_of_false nofun fun h => nomatch h.1

theorem IsPlace.baseUrl_slashed (h : IsPlace t) {base : String} (hbase : baseUrl t = .ok base)
    (n : Nat) : baseUrl (slashed t n) = .ok (slashed base n) := by
  obtain ⟨hok, rfl⟩ := baseUrl_eq_ok_iff.1 hbase
  have hinner : ∀ c ∈ t.toList.getLast?, Url.IsInner c := by
    obtain ⟨c, hlast, -, -, hinner⟩ := h.last
    intro d hd
    rw [hlast] at hd
    exact Option.some.inj hd ▸ hinner
  rw [urlOf_place h.notUrl] at hok
  refine baseUrl_eq_ok_iff.2 ⟨?_, ?_⟩
  · rw [urlOf_place (h.not_isUrl_slashed n), toList_slashed]
    exact Url.check_append hinner hok n
  · rw [urlOf_of_not_isUrl (h.not_isUrl_slashed n), urlOf_of_not_isUrl h.notUrl, slashed, slashed,
      String.append_assoc]

theorem baseUrl_empty : (baseUrl "").toOption = none := by decide +kernel

/-- The base ends in a slash just if the target is no full URL and does. -/
theorem endsInSlash_base_iff {base : String} (h : baseUrl t = .ok base) :
    EndsInSlash base ↔ ¬ IsUrl t ∧ EndsInSlash t := by
  obtain ⟨-, rfl⟩ := baseUrl_eq_ok_iff.1 h
  by_cases hurl : IsUrl t
  · rw [urlOf_of_isUrl hurl]
    exact iff_of_false (not_endsInSlash_withoutSlashes t) fun h => h.1 hurl
  · have hnonempty : t.toList ≠ [] := by
      intro hnil
      obtain rfl := String.toList_eq_nil_iff.1 hnil
      have hnone := baseUrl_empty
      rw [h] at hnone
      cases hnone
    rw [urlOf_place hurl, EndsInSlash, EndsInSlash, String.toList_ofList,
      List.getLast?_append, List.getLast?_eq_some_getLast hnonempty, Option.some_or]
    exact ⟨fun h => ⟨hurl, h⟩, fun h => h.2⟩

/-- The path follows what does not end in a slash, after one slash. -/
def OneSlash (url path : String) : Prop := ∃ root, url = root ++ "/" ++ path ∧ ¬ EndsInSlash root

theorem oneSlash_append_iff (base path : String) :
    OneSlash (base ++ ("/" ++ path)) path ↔ ¬ EndsInSlash base := by
  rw [← String.append_assoc]
  constructor
  · rintro ⟨root, hroot, hend⟩
    rw [String.append_left_inj, String.append_left_inj] at hroot
    rwa [hroot]
  · exact fun hend => ⟨base, rfl, hend⟩

open Agent in
/-- Slashes behind a full URL change nothing; those behind a host and a port are accepted as well and
stay in the base. So in both calls at a target that is accepted one slash comes before the path,
except where a host and a port are followed by slashes. -/
theorem slashes_behind_target {t base : String} (hbase : baseUrl t = .ok base) :
    (IsUrl t → ¬ EndsInSlash t → ∀ n, baseUrl (slashed t n) = .ok base) ∧
    (IsPlace t → ∀ n, baseUrl (slashed t n) = .ok (slashed base n)) ∧
    (∀ r exchange, ∃ p, (callChat t r exchange).1 = some p ∧
      (OneSlash p.url "v1/node/chat/completions" ↔ IsUrl t ∨ ¬ EndsInSlash t)) ∧
    ∀ r exchange, ∃ p, (callEmbeddings t r exchange).1 = some p ∧
      (OneSlash p.url "v1/node/embeddings" ↔ IsUrl t ∨ ¬ EndsInSlash t) := by
  have hchat : chatPath = "/" ++ "v1/node/chat/completions" := by decide
  have hembeddings : embeddingsPath = "/" ++ "v1/node/embeddings" := by decide
  have hone : ¬ EndsInSlash base ↔ IsUrl t ∨ ¬ EndsInSlash t := by
    rw [endsInSlash_base_iff hbase, not_and_or, not_not]
  refine ⟨fun hurl hend n => ?_, fun h n => h.baseUrl_slashed hbase n, fun r exchange => ?_,
    fun r exchange => ?_⟩
  · rw [baseUrl_eq_ok_iff, urlOf_slashed_of_isUrl hurl hend, ← baseUrl_eq_ok_iff]
    exact hbase
  · refine ⟨postChat base r, by rw [callChat, hbase], ?_⟩
    rw [← hone, postChat, hchat]
    exact oneSlash_append_iff base _
  · refine ⟨postEmbeddings base r, by rw [callEmbeddings, hbase], ?_⟩
    rw [← hone, postEmbeddings, hembeddings]
    exact oneSlash_append_iff base _

/-- A full URL and a host with a port, each without slashes and with two. -/
theorem slashes_behind_target_two :
    baseUrl (slashed "https://agent.example" 2) = .ok "https://agent.example" ∧
      baseUrl (slashed "10.0.0.5:50052" 2) = .ok (slashed "http://10.0.0.5:50052" 2) ∧
      ∃ p, (Agent.callEmbeddings "https://agent.example/" {} fun _ => .refused "").1 = some p ∧
        OneSlash p.url "v1/node/embeddings" := by
  have hagent : IsUrl "https://agent.example" := by unfold IsUrl; decide +kernel
  have hagent' : IsUrl "https://agent.example/" := by unfold IsUrl; decide +kernel
  have hend : ¬ EndsInSlash "https://agent.example" := by unfold EndsInSlash; decide +kernel
  have haddress : IsPlace "10.0.0.5:50052" :=
    ⟨by unfold IsUrl; decide +kernel, '2', by decide +kernel, by decide, by decide, by decide⟩
  obtain ⟨hurl, -⟩ := slashes_behind_target
    (of_toOption (by decide +kernel) :
      baseUrl "https://agent.example" = .ok "https://agent.example")
  obtain ⟨-, hplace, -⟩ := slashes_behind_target
    (of_toOption (by decide +kernel) :
      baseUrl "10.0.0.5:50052" = .ok "http://10.0.0.5:50052")
  obtain ⟨-, -, -, hcalls⟩ := slashes_behind_target
    (of_toOption (by decide +kernel) :
      baseUrl "https://agent.example/" = .ok "https://agent.example")
  refine ⟨hurl hagent hend 2, hplace haddress 2, ?_⟩
  obtain ⟨p, hp, hone⟩ := hcalls {} fun _ => .refused ""
  exact ⟨p, hp, hone.2 (.inl hagent')⟩

/-- A host and a port with a slash: the base is another one, and the agent is called with two. -/
theorem slash_stays_behind_port :
    (baseUrl "10.0.0.5:50052").toOption = some "http://10.0.0.5:50052" ∧
      (baseUrl "10.0.0.5:50052/").toOption = some "http://10.0.0.5:50052/" ∧
      ((Agent.callEmbeddings "10.0.0.5:50052/" {} fun _ => .refused "").1.map (·.url)) =
        some "http://10.0.0.5:50052//v1/node/embeddings" := by decide +kernel

end AgentAddress

end InferenceFleet
