import InferenceFleet.Embeddings
import InferenceFleet.Proofs.Time.Written
import InferenceFleet.Proofs.Wire

/-!
# Messages come back from their text

The values of the remaining wire types are writable too, if they hold no floating-point number.
`RoundTrips` says of a shape that decoding undoes encoding; all wire types have it
(`messages_roundTrip`).
-/

namespace InferenceFleet

open Json

/-! ### Nodes -/

theorem Accelerator.writable (a : Accelerator) : shape.Writable a := by
  refine Shape.writable_record (by decide) ?_ rfl
  exact Fields.writable_required trivial (Fields.writable_required trivial
    (Fields.writable_defaulted (IntegerKind.writable_u64 _) trivial))

theorem Capabilities.writable (c : Capabilities) : shape.Writable c := by
  have haccelerators : (Shape.list Accelerator.shape).Writable c.accelerators :=
    Shape.writable_list fun a _ => a.writable
  refine Shape.writable_record (by decide) ?_ rfl
  exact Fields.writable_defaulted (IntegerKind.writable_u32 _) (Fields.writable_defaulted trivial
    (Fields.writable_defaulted (IntegerKind.writable_u64 _) (Fields.writable_defaulted trivial
      (Fields.writable_defaulted haccelerators (Fields.writable_defaulted trivial trivial)))))

theorem Json.Shape.writable_instant (t : Instant) : Shape.instant.Writable t := by
  rw [Shape.Writable]
  exact t.read_print

theorem Node.writable (n : Node) : shape.Writable n := by
  refine Shape.writable_record (by decide) ?_ rfl
  exact Fields.writable_required trivial (Fields.writable_required trivial
    (Fields.writable_defaulted n.capabilities.writable (Fields.writable_defaulted trivial
      (Fields.writable_nullable (fun t _ => ⟨Shape.writable_instant t, nofun⟩) trivial))))

/-! ### Jobs -/

theorem JobKind.writable (k : JobKind) : shape.Writable k := by
  rw [shape, Shape.Writable]
  cases k <;> rfl

theorem JobStatus.writable (s : JobStatus) : shape.Writable s := by
  rw [shape, Shape.Writable]
  cases s <;> rfl

theorem Json.Fields.writable_text {β σ : Type} {name : String} {rest : Fields σ β} {others : β}
    (text : Option String) (h : rest.Writable others) :
    (nullable name Shape.text rest).Writable (text, others) :=
  writable_nullable (fun _ _ => ⟨trivial, nofun⟩) h

theorem Job.writable (j : Job) : shape.Writable j := by
  refine Shape.writable_record (by decide) ?_ rfl
  exact Fields.writable_required trivial (Fields.writable_required j.kind.writable
    (Fields.writable_required trivial (Fields.writable_required j.status.writable
      (Fields.writable_text _ (Fields.writable_text _ (Fields.writable_text _
        (Fields.writable_required (Shape.writable_instant _)
          (Fields.writable_required (Shape.writable_instant _) trivial))))))))

/-! ### Requests for nodes -/

theorem EmbeddingsRequest.writable (r : EmbeddingsRequest) : shape.Writable r := by
  have hinput : (Shape.list Shape.text).Writable r.input :=
    Shape.writable_list fun _ _ => trivial
  refine Shape.writable_record (by decide) ?_ rfl
  exact Fields.writable_defaulted trivial (Fields.writable_defaulted hinput trivial)

theorem ChatRequest.writable_of_temperature {r : ChatRequest}
    (h : ∀ x, r.temperature = some x →
      (Shape.real .f32).Writable x ∧ (Shape.real .f32).toDoc x ≠ .null) : shape.Writable r := by
  have hmessages : (Shape.list ChatMessage.shape).Writable r.messages :=
    Shape.writable_list fun m _ => m.writable
  refine Shape.writable_record (by decide) ?_ rfl
  exact Fields.writable_defaulted trivial (Fields.writable_defaulted hmessages
    (Fields.writable_omissible h
      (Fields.writable_omissible (fun n _ => ⟨IntegerKind.writable_u32 n, nofun⟩)
        (Fields.writable_defaulted trivial trivial))))

theorem ChatRequest.writable {r : ChatRequest} (h : r.temperature = none) : shape.Writable r :=
  writable_of_temperature fun x hx => by cases h ▸ hx

/-! ### Messages of the control surface -/

theorem RegisterRequest.writable (r : RegisterRequest) : shape.Writable r := by
  refine Shape.writable_record (by decide) ?_ rfl
  exact Fields.writable_nullable (fun n _ => ⟨n.writable, nofun⟩) trivial

theorem HeartbeatRequest.writable (r : HeartbeatRequest) : shape.Writable r := by
  exact Shape.writable_record (by decide) (Fields.writable_defaulted trivial trivial) rfl

theorem UpdateRequest.writable (r : UpdateRequest) : shape.Writable r := by
  refine Shape.writable_record (by decide) ?_ rfl
  exact Fields.writable_defaulted trivial
    (Fields.writable_nullable (fun c _ => ⟨c.writable, nofun⟩) trivial)

theorem NodeListing.writable (l : NodeListing) : shape.Writable l := by
  have hnodes : (Shape.list Node.shape).Writable l.nodes :=
    Shape.writable_list fun n _ => n.writable
  exact Shape.writable_record (by decide) (Fields.writable_required hnodes trivial) rfl

theorem Ack.writable (a : Ack) : shape.Writable a := by
  exact Shape.writable_record (by decide) (Fields.writable_required trivial trivial) rfl

theorem Submission.writable (s : Submission) : shape.Writable s := by
  refine Shape.writable_record (by decide) ?_ rfl
  exact Fields.writable_defaulted trivial
    (Fields.writable_defaulted trivial (Fields.writable_defaulted trivial trivial))

theorem SubmissionReceipt.writable (r : SubmissionReceipt) : shape.Writable r := by
  refine Shape.writable_record (by decide) ?_ rfl
  exact Fields.writable_required trivial (Fields.writable_required r.status.writable trivial)

theorem JobReport.writable (r : JobReport) : shape.Writable r := by
  refine Shape.writable_record (by decide) ?_ rfl
  exact Fields.writable_required trivial (Fields.writable_required r.status.writable
    (Fields.writable_text _ (Fields.writable_text _ (Fields.writable_text _ trivial))))

/-! ### All wire types -/

/-- Every value that is `fit` comes back from the text written for it. -/
def Json.RoundTrips {α : Type} (s : Shape α) (fit : α → Prop) : Prop :=
  ∀ a, fit a → s.decodeText (s.encode a) = .ok a

theorem Json.RoundTrips.of_writable {α : Type} {s : Shape α} {fit : α → Prop}
    (hdepth : s.depth < Origin.depthLimit) (h : ∀ a, fit a → s.Writable a) : RoundTrips s fit :=
  fun a ha => s.decodeText_encode (h a ha) hdepth

/-- Decoding undoes encoding for the wire types without floating-point numbers, whatever texts,
integers, times, labels, lists and absent parts a value has. -/
theorem messages_roundTrip :
    RoundTrips Node.shape (fun _ => True) ∧
    RoundTrips Capabilities.shape (fun _ => True) ∧
    RoundTrips Accelerator.shape (fun _ => True) ∧
    RoundTrips Job.shape (fun _ => True) ∧
    RoundTrips ChatMessage.shape (fun _ => True) ∧
    RoundTrips Choice.shape (fun _ => True) ∧
    RoundTrips Usage.shape (fun _ => True) ∧
    RoundTrips Chunk.shape (fun _ => True) ∧
    RoundTrips EmbeddingsRequest.shape (fun _ => True) ∧
    RoundTrips ChatRequest.shape (fun r => r.temperature = none) ∧
    RoundTrips RegisterRequest.shape (fun _ => True) ∧
    RoundTrips HeartbeatRequest.shape (fun _ => True) ∧
    RoundTrips UpdateRequest.shape (fun _ => True) ∧
    RoundTrips NodeListing.shape (fun _ => True) ∧
    RoundTrips Ack.shape (fun _ => True) ∧
    RoundTrips Submission.shape (fun _ => True) ∧
    RoundTrips SubmissionReceipt.shape (fun _ => True) ∧
    RoundTrips JobReport.shape (fun _ => True) ∧
    RoundTrips ErrorBody.shape (fun _ => True) := by
  refine ⟨.of_writable (by decide) fun n _ => n.writable,
    .of_writable (by decide) fun c _ => c.writable,
    .of_writable (by decide) fun a _ => a.writable,
    .of_writable (by decide) fun j _ => j.writable,
    .of_writable (by decide) fun m _ => m.writable,
    .of_writable (by decide) fun c _ => c.writable,
    .of_writable (by decide) fun u _ => u.writable,
    .of_writable (by decide) fun c _ => c.writable,
    .of_writable (by decide) fun r _ => r.writable,
    .of_writable (by decide) fun r hr => ChatRequest.writable hr,
    .of_writable (by decide) fun r _ => r.writable,
    .of_writable (by decide) fun r _ => r.writable,
    .of_writable (by decide) fun r _ => r.writable,
    .of_writable (by decide) fun l _ => l.writable,
    .of_writable (by decide) fun a _ => a.writable,
    .of_writable (by decide) fun s _ => s.writable,
    .of_writable (by decide) fun r _ => r.writable,
    .of_writable (by decide) fun r _ => r.writable,
    .of_writable (by decide) fun b _ => b.writable⟩

/-- A failed job that was created in the leap second of 2016 and changed in the year 10000. -/
theorem messages_roundTrip_leap_second :
    let created : Instant := ⟨1483228799, 1500000000, by decide, by decide, by decide⟩
    let updated : Instant := ⟨253402300800, 1, by decide, by decide, by decide⟩
    let j : Job := { id := "a\"b\n", kind := .chatCompletion, payload := "\u0001\\😀",
                     status := .failed, errorMessage := some "", createdAt := created
                     updatedAt := updated }
    created.print = "2016-12-31T23:59:60.500Z" ∧
      updated.print = "+10000-01-01T00:00:00.000000001Z" ∧
      Job.shape.decodeText (Job.shape.encode j) = .ok j := by
  intro created updated j
  obtain ⟨-, -, -, hjob, -⟩ := messages_roundTrip
  exact ⟨by decide +kernel, by decide +kernel, hjob j trivial⟩

end InferenceFleet
