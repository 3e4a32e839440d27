import InferenceFleet.Proofs.Surfaces.Answers
import InferenceFleet.Proofs.Wire

/-!
# How failures read

A failure that the control surface finds is written as one of three reports (`reports_serve`). Two
answers are given before a request gets to its endpoint, and are no reports: that to a body over the
limit, and that to a path whose job id is no text.
-/

namespace InferenceFleet

open Http

theorem Http.exceeds_iff {n : Nat} {bytes : List UInt8} :
    exceeds n bytes = true ↔ n < bytes.length := by
  induction bytes generalizing n with
  | nil => simp [exceeds]
  | cons b bytes ih =>
    cases n with
    | zero => simp [exceeds]
    | succ n => simp [exceeds, ih]

/-- A body that cannot be read is refused as a bad argument. -/
theorem Http.kind_of_readBody {α : Type} {s : Json.Shape α} {body : List UInt8} {refusal : Refusal}
    (h : readBody s body = .error refusal) : refusal.kind = .invalidArgument := by
  unfold readBody at h
  split at h <;> cases h
  rfl

/-- An error report as JSON: a type and a message. -/
def ErrorBody.doc (type message : String) : Json.Doc :=
  .object [(.ok "error", .object [(.ok "type", .text (.ok type)),
    (.ok "message", .text (.ok message))] .closed)] .closed

theorem ErrorBody.encode_of (type message : String) :
    shape.encode (.of type message) = (doc type message).print := rfl

namespace Rpc

/-- The types of the reports, each with its status. -/
def reportTypes : List (String × Nat) :=
  [("invalid_argument", 400), ("not_found", 404), ("internal", 500)]

/-- The response is a report, of the type that goes with its status. -/
def Reports (response : Response) : Prop :=
  ∃ type message, (type, response.status) ∈ reportTypes ∧
    response.headers = [("content-type", jsonType)] ∧
    response.body = (ErrorBody.doc type message).print ∧
    ErrorBody.shape.decodeText response.body = .ok (.of type message)

/-- The endpoint wants a body, and cannot read this one. -/
def Endpoint.CannotRead (body : List UInt8) (refusal : Refusal) : Endpoint → Prop
  | .health | .nodes | .job _ => False
  | .register => readBody RegisterRequest.shape body = .error refusal
  | .heartbeat => readBody HeartbeatRequest.shape body = .error refusal
  | .update => readBody UpdateRequest.shape body = .error refusal
  | .submit => readBody Submission.shape body = .error refusal
  | .chat => readBody ChatRequest.shape body = .error refusal
  | .embeddings => readBody EmbeddingsRequest.shape body = .error refusal

section
variable {f : Fleet} {agents : Agents} {now : Instant} {e : Endpoint} {body : List UInt8}
  {refusal : Refusal} {α : Type}

theorem reports_refuse (r : Refusal) : Reports (refuse r) := by
  refine ⟨r.kind.code, r.message, ?_, rfl, ErrorBody.encode_of _ _, ?_⟩
  · show (r.kind.code, r.kind.status) ∈ reportTypes
    cases r.kind <;> decide
  · exact ErrorBody.shape.decodeText_encode r.body.writable (by decide)

theorem not_reports_bodyTooLong : ¬ Reports bodyTooLong := by
  rintro ⟨type, message, htype, -⟩
  simp [reportTypes, bodyTooLong, Response.typed] at htype

theorem not_reports_badSegment : ¬ Reports badSegment := by
  rintro ⟨type, message, -, hheaders, -⟩
  simp [badSegment, Response.typed, textType, jsonType] at hheaders

/-- Whatever an endpoint that the request gets to finds wrong, it reports. -/
theorem reports_serve (hadmits : e.Admits body)
    (hstatus : 400 ≤ (serve f agents now e body).1.status) :
    Reports (serve f agents now e body).1 := by
  have hanswers := answers_serve f agents now e body
  generalize serve f agents now e body = answer at hanswers hstatus
  cases hanswers with
  | done hdone =>
    rw [hdone] at hstatus
    exact absurd hstatus (by decide)
  | refused refusal => exact reports_refuse refusal
  | unread hunread => exact absurd hadmits hunread

theorem serve_of_cannotRead (h : e.CannotRead body refusal) :
    serve f agents now e body = (refuse refusal, f) ∧ refusal.kind = .invalidArgument := by
  have hbody : ∀ {α : Type} {s : Json.Shape α} {operation : α → Response × Fleet},
      readBody s body = .error refusal →
      withBody f s body operation = (refuse refusal, f) ∧ refusal.kind = .invalidArgument := by
    intro α s operation hread
    rw [withBody, hread]
    exact ⟨rfl, kind_of_readBody hread⟩
  cases e with
  | health => cases h
  | nodes => cases h
  | job segment => cases h
  | register => exact hbody h
  | heartbeat => exact hbody h
  | update => exact hbody h
  | submit => exact hbody h
  | chat => exact hbody h
  | embeddings => exact hbody h

end

/-- The answer to a request that does not get to the endpoint. -/
def Endpoint.rejection (e : Endpoint) : Response :=
  if e.method = .post then bodyTooLong else badSegment

theorem not_reports_rejection (e : Endpoint) : 400 ≤ e.rejection.status ∧ ¬ Reports e.rejection := by
  unfold Endpoint.rejection
  split
  · exact ⟨by decide, not_reports_bodyTooLong⟩
  · exact ⟨by decide, not_reports_badSegment⟩

/-- The request has the endpoint's path and method: it is a `POST`, or asks for a job by `GET`. -/
structure Asks (r : Request) (e : Endpoint) : Prop where
  path : Endpoint.ofPath? r.path = some e
  method : e.method = .post ∧ r.method = "POST" ∨ (∃ segment, e = .job segment) ∧ r.method = "GET"

namespace Asks
variable {f : Fleet} {agents : Agents} {now : Instant} {r : Request} {e : Endpoint}

theorem handle (h : Asks r e) :
    handle f agents now r =
      if e.method = .post ∧ bodyLimit < r.body.length then (bodyTooLong, f)
      else serve f agents now e r.body := by
  have haccepts : e.method.accepts r.method = true := by
    rcases h.method with ⟨hpost, hmethod⟩ | ⟨⟨segment, rfl⟩, hmethod⟩
    · rw [hpost, hmethod]
      rfl
    · rw [hmethod]
      rfl
  have hhead : (r.method == "HEAD") = false := by
    rcases h.method with ⟨-, hmethod⟩ | ⟨-, hmethod⟩ <;> rw [hmethod] <;> decide
  simp only [Rpc.handle, h.path, haccepts, if_true, hhead, Bool.false_eq_true, if_false,
    exceeds_iff]

theorem admitted (h : Asks r e) (hadmits : e.Admits r.body) :
    Rpc.handle f agents now r = serve f agents now e r.body := by
  rw [h.handle, if_neg]
  rintro ⟨hpost, hlong⟩
  have hwithin : r.body.length ≤ bodyLimit := by
    cases e <;> first | exact hadmits rfl | cases hpost
  omega

theorem rejected (h : Asks r e) (hadmits : ¬ e.Admits r.body) :
    Rpc.handle f agents now r = (e.rejection, f) := by
  rw [h.handle, Endpoint.rejection]
  rcases h.method with ⟨hpost, -⟩ | ⟨⟨segment, rfl⟩, -⟩
  · have hlong : bodyLimit < r.body.length := by
      refine Nat.lt_of_not_le fun hwithin => hadmits ?_
      cases e <;> first | exact fun _ => hwithin | cases hpost
    rw [if_pos ⟨hpost, hlong⟩, if_pos hpost]
  · have hget : (Endpoint.job segment).method ≠ .post := nofun
    have hsegment : Utf8.decode? (Percent.decodeText segment) = none := by
      simpa [Endpoint.Admits] using hadmits
    rw [if_neg fun hpost => hget hpost.1, if_neg hget, serve, hsegment]

end Asks

/-- Whatever is asked of an endpoint in whatever state: if the request gets to the endpoint, a failure
is a report of the type that goes with its status, and a body that cannot be read is refused like any
other bad argument, with no effect. The others fail without a report: a body over the limit, and a
job id that is no text. -/
theorem failures_report (f : Fleet) (agents : Agents) (now : Instant) (r : Request) (e : Endpoint)
    (h : Asks r e) :
    let answer := handle f agents now r
    (e.Admits r.body →
      (400 ≤ answer.1.status → Reports answer.1) ∧
        ∀ refusal, e.CannotRead r.body refusal →
          answer = (refuse refusal, f) ∧ refusal.kind = .invalidArgument) ∧
    (¬ e.Admits r.body →
      answer = (e.rejection, f) ∧ 400 ≤ answer.1.status ∧ ¬ Reports answer.1) := by
  intro answer
  constructor
  · intro hadmits
    have hanswer : answer = serve f agents now e r.body := h.admitted hadmits
    rw [hanswer]
    exact ⟨reports_serve hadmits, fun refusal hread => serve_of_cannotRead hread⟩
  · intro hadmits
    have hanswer : answer = (e.rejection, f) := h.rejected hadmits
    rw [hanswer]
    exact ⟨rfl, not_reports_rejection e⟩

/-- A heartbeat of a node that is not registered; and a body that breaks off after its bracket. -/
theorem failures_report_heartbeat :
    let f := Fleet.ofLimit 1
    let agents : Agents := ⟨fun _ => .ok (), fun _ _ => .ok [], fun _ _ => .ok {}⟩
    let ask (body : List UInt8) : Request := { method := "POST", target := "/rpc/nodes/heartbeat", body }
    let unknown := ask [0x5B, 0x22, 0x6E, 0x22, 0x5D]
    let broken := ask [0x5B]
    (Asks unknown .heartbeat ∧ Asks broken .heartbeat) ∧
      (handle f agents (.ofNanos 0) unknown).1.status = 404 ∧
      Reports (handle f agents (.ofNanos 0) unknown).1 ∧
      ∃ refusal, handle f agents (.ofNanos 0) broken = (refuse refusal, f) ∧
        refusal.kind = .invalidArgument := by
  intro f agents ask unknown broken
  have hunknown : Asks unknown .heartbeat := ⟨by decide +kernel, .inl ⟨rfl, rfl⟩⟩
  have hbroken : Asks broken .heartbeat := ⟨by decide +kernel, .inl ⟨rfl, rfl⟩⟩
  obtain ⟨hreports, -⟩ := failures_report f agents (.ofNanos 0) unknown .heartbeat hunknown
  obtain ⟨hrefuses, -⟩ := failures_report f agents (.ofNanos 0) broken .heartbeat hbroken
  have hstatus : (handle f agents (.ofNanos 0) unknown).1.status = 404 := by decide +kernel
  obtain ⟨refusal, hread⟩ : ∃ refusal, readBody HeartbeatRequest.shape broken.body =
      .error refusal := ⟨_, rfl⟩
  refine ⟨⟨hunknown, hbroken⟩, hstatus, ?_, refusal, ?_⟩
  · exact (hreports fun _ => by decide).1 (by rw [hstatus]; decide)
  · exact (hrefuses fun _ => by decide).2 refusal hread

/-- A job that is asked for by a byte that is no text. -/
theorem bad_id_unreported :
    ¬ ∀ (f : Fleet) (agents : Agents) (now : Instant) (r : Request) (e : Endpoint), Asks r e →
      400 ≤ (handle f agents now r).1.status → Reports (handle f agents now r).1 := by
  intro hall
  let f := Fleet.ofLimit 1
  let agents : Agents := ⟨fun _ => .ok (), fun _ _ => .ok [], fun _ _ => .ok {}⟩
  let r : Request := { method := "GET", target := "/rpc/jobs/%FF" }
  have hasks : Asks r (.job ['%', 'F', 'F']) :=
    ⟨by decide +kernel, .inr ⟨⟨['%', 'F', 'F'], rfl⟩, rfl⟩⟩
  have hunread : ¬ (Endpoint.job ['%', 'F', 'F']).Admits r.body := by
    show ¬ (Utf8.decode? (Percent.decodeText ['%', 'F', 'F'])).isSome = true
    decide +kernel
  have hanswer : handle f agents (.ofNanos 0) r = (_, f) := hasks.rejected hunread
  obtain ⟨hstatus, hsilent⟩ := not_reports_rejection (.job ['%', 'F', 'F'])
  have hreports := hall f agents (.ofNanos 0) r _ hasks
  rw [hanswer] at hreports
  exact hsilent (hreports hstatus)

end Rpc

end InferenceFleet
