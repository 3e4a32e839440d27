import InferenceFleet.Gateway.Surface
import InferenceFleet.Proofs.EventStream.Batch
import InferenceFleet.Proofs.Fleet.Outcomes
import InferenceFleet.Proofs.Json.Members
import InferenceFleet.Proofs.Json.Scan.Complete

/-!
# Error reports in a stream

An object is read as an error report just when its one member `error` has one text as its type and
one as its message (`ErrorBody.readWhole_iff`). Any other object in a frame is read as a chunk, to
which a member `error` is nothing (`Chunk.read_object`). What is read as a report completes no job
and is answered by the gateway with a failure.
-/

namespace InferenceFleet

open Json

/-! ### What is read as a report -/

/-- The document names the code and the message, as an object or as a list. -/
inductive ErrorDetail.Names : Doc → String → String → Prop where
  | object {ms : Members} {code message : String} : KeysRead ms →
    named "type" ms = [(.ok "type", .text (.ok code))] →
    named "message" ms = [(.ok "message", .text (.ok message))] →
    Names (.object ms .closed) code message
  | list {code message : String} :
    Names (.list [.text (.ok code), .text (.ok message)] .closed) code message

/-- The members of an object that reports an error: one of them is `error`. -/
structure ErrorBody.Reports (ms : Members) (code message : String) : Prop where
  keys : KeysRead ms
  detail : ∃ d, named "error" ms = [(.ok "error", d)] ∧ ErrorDetail.Names d code message

theorem Json.Doc.readText_iff {wanted : String} {d : Doc} {s : String} :
    d.readText wanted = .ok s ↔ d = .text (.ok s) := by
  constructor
  · intro h
    cases d with
    | text t =>
      obtain rfl : t = .ok s := h
      rfl
    | _ => cases h
  · rintro rfl
    rfl

theorem Json.checkSurplus_cons (depth count : Nat) (d : Doc) (ds : List Doc) (ending : Ending) :
    ∃ f, checkSurplus (.text depth) count (d :: ds) ending = .error f := by
  unfold checkSurplus
  split
  · rename_i heq _
    cases heq
  · exact ⟨_, rfl⟩
  · exact ⟨_, rfl⟩
  · exact ⟨_, rfl⟩
  · rename_i heq
    cases heq

theorem ErrorDetail.read_object_iff {ms : Members} (hms : ∀ m ∈ ms, m.2.Complete) {depth : Nat}
    (hdepth : 1 < depth) {detail : ErrorDetail} :
    shape.read (.text depth) (.object ms .closed) = .ok detail ↔
      Names (.object ms .closed) detail.code detail.message := by
  -- The members that are no text of the two can be passed over, as they are complete.
  have hpassing : ∀ m ∈ unnamed "message" (unnamed "type" ms), m.2.passing? = none :=
    fun m hm => (hms m (mem_of_mem_unnamed (mem_of_mem_unnamed hm))).passing?
  have htext : ∀ {d : Doc} {s : String},
      Shape.text.read (.text (depth - 1)) d = .ok s ↔ d = .text (.ok s) := by
    intro d s
    rw [Shape.read]
    exact Doc.readText_iff
  rw [shape, Json.read_object_iff hdepth]
  constructor
  · rintro ⟨⟨found, found', ⟨⟩⟩, v, hfold, hfinish, rfl⟩
    obtain ⟨hrest, htype⟩ := foldlM_readNext_cons.1 hfold
    obtain ⟨hothers, hmessage⟩ := foldlM_readNext_cons.1 hrest
    rw [named_unnamed (by decide)] at hmessage
    have hkeys := (foldlM_readNext_nil.1 hothers).1.of_unnamed.of_unnamed
    generalize htypes : named "type" ms = types at htype
    generalize hmessages : named "message" ms = messages at hmessage
    cases htype with
    | none => cases hfinish
    | one htype =>
      cases hmessage with
      | none => cases hfinish
      | one hmessage =>
        cases hfinish
        exact .object hkeys (htypes.trans (by rw [htext.1 htype]))
          (hmessages.trans (by rw [htext.1 hmessage]))
  · intro hnames
    obtain ⟨code, message⟩ := detail
    cases hnames with
    | object hkeys htypes hmessages =>
      refine ⟨(some code, some message, ()), (code, message, ()), ?_, rfl, rfl⟩
      have hmessages' : named "message" (unnamed "type" ms) =
          [(.ok "message", .text (.ok message))] := by rwa [named_unnamed (by decide)]
      refine foldlM_readNext_cons.2 ⟨foldlM_readNext_cons.2 ⟨foldlM_readNext_nil.2 ⟨?_, hpassing⟩,
        ?_⟩, ?_⟩
      · exact fun m hm => hkeys m (mem_of_mem_unnamed (mem_of_mem_unnamed hm))
      · rw [hmessages']
        exact .one (htext.2 rfl)
      · rw [htypes]
        exact .one (htext.2 rfl)

theorem ErrorDetail.read_list_iff {items : List Doc} {depth : Nat} (hdepth : 1 < depth)
    {detail : ErrorDetail} :
    shape.read (.text depth) (.list items .closed) = .ok detail ↔
      Names (.list items .closed) detail.code detail.message := by
  rw [shape, Shape.read, Origin.enter_text hdepth]
  simp only [Fields.required, Fields.readList, Shape.read, bind, Except.bind]
  constructor
  · intro h
    cases items with
    | nil => cases h
    | cons a items =>
      cases ha : a.readText "a string" with
      | error f =>
        simp only [ha] at h
        cases h
      | ok code =>
        simp only [ha] at h
        cases items with
        | nil => cases h
        | cons b items =>
          cases hb : b.readText "a string" with
          | error f =>
            simp only [hb] at h
            cases h
          | ok message =>
            simp only [hb] at h
            cases items with
            | nil =>
              cases h
              rw [Doc.readText_iff.1 ha, Doc.readText_iff.1 hb]
              exact .list
            | cons c items =>
              obtain ⟨f, hsurplus⟩ := checkSurplus_cons depth 2 c items .closed
              have hfault : Except.error f = Except.ok detail := by
                rw [← h]
                exact (congrArg (fun u : Except Fault Unit => u.bind fun _ =>
                  Except.ok (ErrorDetail.mk code message)) hsurplus).symm
              cases hfault
  · intro h
    cases h with
    | list => rfl

theorem ErrorDetail.read_iff {d : Doc} (hd : d.Complete) {depth : Nat} (hdepth : 1 < depth)
    {detail : ErrorDetail} :
    shape.read (.text depth) d = .ok detail ↔ Names d detail.code detail.message := by
  cases hd with
  | object hms => exact read_object_iff hms hdepth
  | list _ => exact read_list_iff hdepth
  | _ => exact ⟨fun h => (by cases h), fun h => (by cases h)⟩

theorem Json.mem_of_named {name : String} {ms : Members} {m : Except Fault String × Doc}
    (h : named name ms = [m]) : m ∈ ms :=
  (List.mem_filter.1 (h ▸ List.mem_singleton_self m : m ∈ named name ms)).1

theorem ErrorBody.read_iff {ms : Members} (hms : ∀ m ∈ ms, m.2.Complete) {depth : Nat}
    (hdepth : 2 < depth) {body : ErrorBody} :
    shape.read (.text depth) (.object ms .closed) = .ok body ↔
      Reports ms body.error.code body.error.message := by
  have hpassing : ∀ m ∈ unnamed "error" ms, m.2.passing? = none :=
    fun m hm => (hms m (mem_of_mem_unnamed hm)).passing?
  have hdetail : ∀ {d : Doc} {detail : ErrorDetail}, named "error" ms = [(.ok "error", d)] →
      (ErrorDetail.shape.read (.text (depth - 1)) d = .ok detail ↔
        ErrorDetail.Names d detail.code detail.message) :=
    fun hnamed => ErrorDetail.read_iff (hms _ (mem_of_named hnamed)) (by omega)
  rw [shape, Json.read_object_iff (by omega)]
  constructor
  · rintro ⟨⟨found, ⟨⟩⟩, v, hfold, hfinish, rfl⟩
    obtain ⟨hothers, herror⟩ := foldlM_readNext_cons.1 hfold
    have hkeys := (foldlM_readNext_nil.1 hothers).1.of_unnamed
    generalize herrors : named "error" ms = errors at herror
    cases herror with
    | none => cases hfinish
    | one herror =>
      cases hfinish
      exact ⟨hkeys, _, herrors, (hdetail herrors).1 herror⟩
  · rintro ⟨hkeys, d, herrors, hnames⟩
    refine ⟨(some body.error, ()), (body.error, ()), ?_, rfl, rfl⟩
    refine foldlM_readNext_cons.2 ⟨foldlM_readNext_nil.2 ⟨?_, hpassing⟩, ?_⟩
    · exact fun m hm => hkeys m (mem_of_mem_unnamed hm)
    · rw [herrors]
      exact .one ((hdetail herrors).2 hnames)

theorem Json.Shape.decodeText_of_scan {α : Type} (s : Shape α) {text : String} {d : Doc}
    (h : scanText text = ⟨d, false⟩) : s.decodeText text = s.read (.text Origin.depthLimit) d := by
  rw [decodeText, h, readWhole]
  cases s.read (.text Origin.depthLimit) d <;> rfl

/-- A chunk has no member `error`: those that an object has are passed over. -/
theorem Chunk.read_object {ms : Members} (hms : ∀ m ∈ ms, m.2.Complete) {depth : Nat}
    (hdepth : 1 < depth) :
    shape.read (.text depth) (.object ms .closed) =
      shape.read (.text depth) (.object (unnamed "error" ms) .closed) := by
  refine read_object_filter hdepth fun m hm herror => ?_
  have hnamed : isNamed "error" m = true := by simpa using herror
  exact ⟨"error", key_of_isNamed hnamed, by decide, (hms m hm).passing?⟩

/-! ### A failure in front -/

theorem Fleet.withNode_ok {α : Type} {f : Fleet} {agents : Agents} {model : String}
    {call : Fleet → String → Except AgentFault α × Fleet} {a : α}
    (h : (f.withNode agents model call).1 = .ok a) : ∃ g target, (call g target).1 = .ok a := by
  unfold withNode at h
  split at h
  · cases h
  split at h
  · cases h
  split at h
  · rename_i target g _ _ _ _ hcall
    cases h
    exact ⟨g, target, by rw [hcall]⟩
  · cases h

theorem Fleet.dispatchChat_ok {f : Fleet} {agents : Agents} {r : ChatRequest} {items : List Item}
    (h : (f.dispatchChat agents r).1 = .ok items) : ∃ target, agents.chat target r = .ok items := by
  unfold dispatchChat at h
  split at h
  · cases h
  split at h
  · cases h
  obtain ⟨_, target, hcall⟩ := withNode_ok h
  exact ⟨target, hcall⟩

/-- Nodes that stream a failure first get no client a complete answer. -/
theorem Gateway.serve_chat_of_fault {f : Fleet} {agents : Agents} {body : List UInt8}
    {r : ChatRequest} (hbody : Http.readBody ChatRequest.shape body = .ok r)
    (hwhole : r.isStream = false)
    (hfault : ∀ target q, ∃ fault more, agents.chat target q = .ok (.error fault :: more)) :
    (serve f agents .chat body).1.status ≠ 200 := by
  have hrefuse : ∀ r : Refusal, (refuse r).status ≠ 200 := by
    intro r
    show r.kind.gatewayStatus ≠ 200
    cases r.kind <;> decide
  have hserve : (serve f agents .chat body).1 =
      match (f.dispatchChat agents r.toInternal).1 with
      | .ok items => completion (untilFault items)
      | .error fault => refuse fault.refusal := by
    simp only [serve, hbody, Fleet.chat]
    cases f.dispatchChat agents r.toInternal with
    | mk result g => cases result <;> simp [hwhole]
  rw [hserve]
  cases hresult : (f.dispatchChat agents r.toInternal).1 with
  | error fault => exact hrefuse _
  | ok items =>
    obtain ⟨target, hchat⟩ := Fleet.dispatchChat_ok hresult
    obtain ⟨fault, more, hitems⟩ := hfault target r.toInternal
    rw [hitems] at hchat
    cases hchat
    exact hrefuse _

namespace EventStream

/-! ### What becomes of a frame -/

section
variable {text data : String} {ms : Members} (hdata : frameData? text.toList = some data)
  (hobject : scanText data = ⟨.object ms .closed, false⟩)
include hdata hobject

theorem parse_object :
    Frame.parse text =
      match ErrorBody.shape.read (.text Origin.depthLimit) (.object ms .closed) with
      | .ok body => .item (.error (.remote body.error.message))
      | .error _ =>
        .item ((Chunk.shape.read (.text Origin.depthLimit) (.object ms .closed)).mapError
          .decode) := by
  have hmark : data ≠ doneMark := by
    rintro rfl
    have hroot := congrArg Text.root hobject
    revert hroot
    exact fun h => by cases h
  have hparse : Frame.parse text = .ofData data := by rw [Frame.parse, hdata]
  rw [hparse, Frame.ofData, if_neg hmark, Shape.decodeText_of_scan _ hobject]
  cases ErrorBody.shape.read (.text Origin.depthLimit) (.object ms .closed) with
  | ok body => rfl
  | error f =>
    dsimp only
    rw [Shape.decodeText_of_scan _ hobject]
    cases Chunk.shape.read (.text Origin.depthLimit) (.object ms .closed) <;> rfl

end

/-- A frame with an object is a failure that the node reports just when the object is read as a
report. Any other object is read as a chunk, and a member `error` that it has counts for nothing.
A frame that is read as a failure completes no job whose node streams it, in any life, and when it
comes first, no client of the gateway that wants a complete answer gets one. -/
theorem parse_error_member (text data : String) (ms : Members)
    (hdata : frameData? text.toList = some data)
    (hobject : scanText data = ⟨.object ms .closed, false⟩) :
    (∀ message, Frame.parse text = .item (.error (.remote message)) ↔
        ∃ code, ErrorBody.Reports ms code message) ∧
      ((∀ code message, ¬ ErrorBody.Reports ms code message) →
        Frame.parse text =
          .item ((Chunk.shape.read (.text Origin.depthLimit)
            (.object (unnamed "error" ms) .closed)).mapError .decode)) ∧
      ∀ fault, Frame.parse text = .item (.error fault) →
        (∀ (limit : Nat) (events : List Fleet.Event) (id : String) (k : Job),
          .error fault ∈ ((Fleet.ofLimit limit).accountOf id {} events).items →
          ((Life.start limit).run events).fleet.queue.get? id = some k → k.status ≠ .completed) ∧
        ∀ (pieces : List (List UInt8)) (ending : BodyEnd) (before after : List (List UInt8))
          (frame rest : List UInt8), IsCut pieces.flatten (before ++ frame :: after) rest →
          (∀ g ∈ before, Frame.ofBytes g = .nothing) → Utf8.decodeLossy frame = text →
          ∀ (f : Fleet) (agents : Agents) (body : List UInt8) (r : Gateway.ChatRequest),
            Http.readBody Gateway.ChatRequest.shape body = .ok r → r.isStream = false →
            (∀ target q, agents.chat target q = .ok (decode pieces ending)) →
            (Gateway.serve f agents .chat body).1.status ≠ 200 := by
  have hcomplete : (Doc.object ms .closed).Complete := complete_scanText hobject rfl
  have hms : ∀ m ∈ ms, m.2.Complete := fun m hm => hcomplete.of_mem hm
  have hparse := parse_object hdata hobject
  have hread : ∀ {body : ErrorBody}, ErrorBody.shape.read (.text Origin.depthLimit)
      (.object ms .closed) = .ok body ↔
        ErrorBody.Reports ms body.error.code body.error.message :=
    ErrorBody.read_iff hms (by decide)
  refine ⟨fun message => ⟨fun h => ?_, fun ⟨code, h⟩ => ?_⟩, fun h => ?_,
    fun fault hfault => ⟨?_, ?_⟩⟩
  · rw [hparse] at h
    cases hbody : ErrorBody.shape.read (.text Origin.depthLimit) (.object ms .closed) with
    | ok body =>
      rw [hbody] at h
      cases h
      exact ⟨_, hread.1 hbody⟩
    | error f =>
      rw [hbody] at h
      cases hchunk : Chunk.shape.read (.text Origin.depthLimit) (.object ms .closed) <;>
        rw [hchunk] at h <;> cases h
  · have hbody : ErrorBody.shape.read (.text Origin.depthLimit) (.object ms .closed) =
        .ok (.of code message) := hread.2 h
    rw [hparse, hbody]
    rfl
  · cases hbody : ErrorBody.shape.read (.text Origin.depthLimit) (.object ms .closed) with
    | ok body => exact absurd (hread.1 hbody) (h _ _)
    | error f =>
      rw [hparse, hbody, Chunk.read_object hms (by decide)]
  · exact fun limit events id k hitem hget => Life.not_completed_of_fault limit events hitem hget
  · intro pieces ending before after frame rest hcut hbefore hframe f agents body r hbody hwhole
      hchat
    have hitem : Frame.ofBytes frame = .item (.error fault) := by rw [Frame.ofBytes, hframe, hfault]
    obtain ⟨more, hmore⟩ := hcut.decodeWhole_first hbefore hitem ending
    refine Gateway.serve_chat_of_fault hbody hwhole fun target q => ⟨fault, more, ?_⟩
    rw [hchat, decode_eq_decodeWhole, hmore]

/-- A report with members that mean nothing, and a client that wants a complete answer from a node
that streams it. -/
theorem parse_error_member_report :
    let text :=
      "data: \x7b\"error\":\x7b\"type\":\"t\",\"message\":\"m\"\x7d,\"id\":null\x7d"
    let stream := [Utf8.encode text, [0x0A], [0x0A]]
    let body := Utf8.encode "\x7b\"model\":\"m\"\x7d"
    Frame.parse text = .item (.error (.remote "m")) ∧
      ∀ f, (Gateway.serve f ⟨fun _ => .ok (), fun _ _ => .ok (decode stream .clean),
        fun _ _ => .ok {}⟩ .chat body).1.status ≠ 200 := by
  let detail : Members := [(.ok "type", .text (.ok "t")), (.ok "message", .text (.ok "m"))]
  let ms : Members := [(.ok "error", .object detail .closed), (.ok "id", .null)]
  have hdata : frameData?
      "data: \x7b\"error\":\x7b\"type\":\"t\",\"message\":\"m\"\x7d,\"id\":null\x7d".toList =
        some "\x7b\"error\":\x7b\"type\":\"t\",\"message\":\"m\"\x7d,\"id\":null\x7d" := by rfl
  have hobject : scanText
      "\x7b\"error\":\x7b\"type\":\"t\",\"message\":\"m\"\x7d,\"id\":null\x7d" =
        ⟨.object ms .closed, false⟩ := by rfl
  have hbody : Http.readBody Gateway.ChatRequest.shape (Utf8.encode "\x7b\"model\":\"m\"\x7d") =
      .ok { model := some "m" } := by rfl
  have hreports : ErrorBody.Reports ms "t" "m" := by
    refine ⟨?_, _, rfl, .object ?_ rfl rfl⟩ <;> simp [KeysRead, ms, detail]
  intro text stream body
  have hlaw := parse_error_member text _ ms hdata hobject
  have hparse := (hlaw.1 "m").2 ⟨"t", hreports⟩
  have hcut : IsCut stream.flatten ([] ++ Utf8.encode text :: []) [] :=
    ⟨by simp [stream, blankLine], by decide, by decide⟩
  exact ⟨hparse, fun f => (hlaw.2.2 _ hparse).2 stream .clean [] [] _ _ hcut
    (fun _ hg => (by cases hg)) (Utf8.decodeLossy_encode text) f _ body _ hbody rfl fun _ _ => rfl⟩

/-- A text as the error is no report, so the frame is an empty chunk. -/
theorem error_text_is_chunk :
    let data := "\x7b\"error\":\"overloaded\"\x7d"
    let text := "data: \x7b\"error\":\"overloaded\"\x7d"
    frameData? text.toList = some data ∧
      scanText data =
        ⟨.object [(.ok "error", .text (.ok "overloaded"))] .closed, false⟩ ∧
      Frame.parse text = .item (.ok {}) := by
  exact ⟨by rfl, by rfl, by rfl⟩

end EventStream

end InferenceFleet
