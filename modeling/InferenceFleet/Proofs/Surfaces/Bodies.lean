import InferenceFleet.Gateway.Surface
import InferenceFleet.Proofs.Json.Extends
import InferenceFleet.Rpc.Surface

/-!
# One body, one request

The messages of the gateway extend those of the control surface: a field that is plain there may be
absent or `null` here, and a list of texts may be one text. So a body that the control surface reads
is read by the gateway as well, for the same request, in whatever form it comes
(`one_body_one_request`).
-/

namespace InferenceFleet

open Json

/-! ### The gateway's messages -/

namespace Gateway

theorem text_ne_null (origin : Origin) (s : String) : Shape.text.read origin .null ≠ .ok s := by
  simp [Shape.read, Doc.readText]

theorem flag_ne_null (origin : Origin) (b : Bool) : Shape.flag.read origin .null ≠ .ok b := by
  simp [Shape.read]

/-- A text that may be absent, for one that is empty when absent. -/
theorem extends_text : Shape.text.optional.Extends .text (·.getD "") := .optional text_ne_null ""

theorem Message.extends : Message.shape.Extends ChatMessage.shape toInternal :=
  .record (.cons (.cons .nil extends_text rfl) (.refl _) rfl) fun _ => rfl

theorem ChatRequest.extends :
    ChatRequest.shape.Extends InferenceFleet.ChatRequest.shape toInternal := by
  have hstream : Shape.flag.optional.Extends .flag (·.getD false) := .optional flag_ne_null false
  refine .record (.cons (.cons (.cons (.cons (.cons .nil hstream rfl) (.refl _) rfl) (.refl _) rfl)
    Message.extends.list rfl) extends_text rfl) fun v => ?_
  simp only [toInternal, isStream, Prod.map, id]

theorem Input.extends : Input.shape.Extends (.list .text) toList := .textOrTexts fun _ => rfl

theorem EmbeddingsRequest.extends :
    EmbeddingsRequest.shape.Extends InferenceFleet.EmbeddingsRequest.shape toInternal :=
  .record (.cons (.cons .nil Input.extends rfl) extends_text rfl) fun _ => rfl

end Gateway

/-! ### What a body comes to -/

section
variable {body : List UInt8} (f : Fleet) (agents : Agents) (now : Instant)

theorem Rpc.serve_chat {r : ChatRequest} (h : ChatRequest.shape.decode body = .ok r) :
    (Rpc.serve f agents now .chat body).2 = (f.chat agents r).2 := by
  simp only [Rpc.serve, Rpc.withBody, Http.readBody, h]
  split <;> rename_i heq <;> rw [heq]

theorem Rpc.serve_embeddings {r : EmbeddingsRequest}
    (h : EmbeddingsRequest.shape.decode body = .ok r) :
    (Rpc.serve f agents now .embeddings body).2 = (f.embeddings agents r).2 := by
  simp only [Rpc.serve, Rpc.withBody, Http.readBody, h, Rpc.respond]
  split <;> rename_i heq <;> rw [heq]

theorem Gateway.serve_chat {o : Gateway.ChatRequest}
    (h : Gateway.ChatRequest.shape.decode body = .ok o) :
    (Gateway.serve f agents .chat body).2 = (f.chat agents o.toInternal).2 := by
  simp only [Gateway.serve, Http.readBody, h]
  split <;> rename_i heq <;> rw [heq]

theorem Gateway.serve_embeddings {o : Gateway.EmbeddingsRequest}
    (h : Gateway.EmbeddingsRequest.shape.decode body = .ok o) :
    (Gateway.serve f agents .embeddings body).2 = (f.embeddings agents o.toInternal).2 := by
  simp only [Gateway.serve, Http.readBody, h]
  split <;> rename_i heq <;> rw [heq]

end

/-- A body that is read as a chat request or as an embeddings request is read by the gateway as
well, for the same request. So it comes to the same on the gateway and on the control surface,
whatever the state of the fleet and its agents, and as a job's payload it is that request, too. -/
theorem one_body_one_request (body : List UInt8) :
    (∀ r, ChatRequest.shape.decode body = .ok r →
      (∃ o, Gateway.ChatRequest.shape.decode body = .ok o ∧ o.toInternal = r) ∧
        (∀ (f : Fleet) agents now, (Rpc.serve f agents now .chat body).2 = (f.chat agents r).2 ∧
          (Gateway.serve f agents .chat body).2 = (f.chat agents r).2) ∧
        ∀ j : Job, j.kind = .chatCompletion → Utf8.encode j.payload = body →
          Payload.read j = .ok (.chat r)) ∧
    ∀ r, EmbeddingsRequest.shape.decode body = .ok r →
      (∃ o, Gateway.EmbeddingsRequest.shape.decode body = .ok o ∧ o.toInternal = r) ∧
        (∀ (f : Fleet) agents now,
          (Rpc.serve f agents now .embeddings body).2 = (f.embeddings agents r).2 ∧
            (Gateway.serve f agents .embeddings body).2 = (f.embeddings agents r).2) ∧
        ∀ j : Job, j.kind = .embeddings → Utf8.encode j.payload = body →
          Payload.read j = .ok (.embeddings r) := by
  constructor
  · intro r h
    obtain ⟨o, ho, hr⟩ := Gateway.ChatRequest.extends.decode h
    refine ⟨⟨o, ho, hr⟩, fun f agents now => ⟨Rpc.serve_chat f agents now h, ?_⟩, ?_⟩
    · rw [Gateway.serve_chat f agents ho, hr]
    · rintro j hkind rfl
      have htext : ChatRequest.shape.decodeText j.payload = .ok r := h
      simp only [Payload.read, hkind, htext]
  · intro r h
    obtain ⟨o, ho, hr⟩ := Gateway.EmbeddingsRequest.extends.decode h
    refine ⟨⟨o, ho, hr⟩, fun f agents now => ⟨Rpc.serve_embeddings f agents now h, ?_⟩, ?_⟩
    · rw [Gateway.serve_embeddings f agents ho, hr]
    · rintro j hkind rfl
      have htext : EmbeddingsRequest.shape.decodeText j.payload = .ok r := h
      simp only [Payload.read, hkind, htext]

/-- A chat request with its fields out of order, an unknown one among them and a message as a list;
and an embeddings request as a list. -/
theorem one_body_one_request_forms :
    let chat := "\x7b\"messages\":[[\"user\"],\x7b\"content\":\"hi\",\"role\":\"a\"\x7d]," ++
      "\"n\":[],\"model\":\"m\"\x7d"
    let embeddings := "[\"m\",[\"a\",\"b\"]]"
    let r : ChatRequest := { model := "m", messages := [{ role := "user" }, ⟨"a", "hi"⟩] }
    let s : EmbeddingsRequest := { model := "m", input := ["a", "b"] }
    let job : Job := .submitted "a" .chatCompletion chat (.ofNanos 0)
    ChatRequest.shape.decode (Utf8.encode chat) = .ok r ∧
      (∃ o, Gateway.ChatRequest.shape.decode (Utf8.encode chat) = .ok o ∧ o.toInternal = r) ∧
      Payload.read job = .ok (.chat r) ∧
      EmbeddingsRequest.shape.decode (Utf8.encode embeddings) = .ok s ∧
      ∃ o, Gateway.EmbeddingsRequest.shape.decode (Utf8.encode embeddings) = .ok o ∧
        o.toInternal = s := by
  intro chat embeddings r s job
  have hchat : ChatRequest.shape.decode (Utf8.encode chat) = .ok r := by decide +kernel
  have hembeddings : EmbeddingsRequest.shape.decode (Utf8.encode embeddings) = .ok s := by
    decide +kernel
  obtain ⟨hread, -, hjob⟩ := (one_body_one_request (Utf8.encode chat)).1 r hchat
  obtain ⟨hread', -, -⟩ := (one_body_one_request (Utf8.encode embeddings)).2 s hembeddings
  exact ⟨hchat, hread, hjob job rfl rfl, hembeddings, hread'⟩

end InferenceFleet
