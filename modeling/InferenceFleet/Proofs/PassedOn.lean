import InferenceFleet.Agent.Client
import InferenceFleet.Proofs.Json.Extends
import InferenceFleet.Proofs.Json.Readings
import InferenceFleet.Proofs.Json.Singles
import InferenceFleet.Proofs.Messages

/-!
# What is read can be passed on, infinities apart

A number beyond the range of a single is read as an infinity, which is written as `null`. So an
answer with embeddings comes back from its text just if all its values are finite; otherwise the
text cannot be read. A chat request comes back, but without its temperature if that is infinite
(`passed_on_unless_infinite`).
-/

namespace InferenceFleet

open Json

theorem Json.Shape.plain_list {α : Type} {s : Shape α} {as : List α}
    (h : ∀ a ∈ as, (s.toDoc a).Plain) : (s.list.toDoc as).Plain := by
  refine .list fun d hd => ?_
  obtain ⟨a, ha, rfl⟩ := List.mem_map.1 hd
  exact h a ha

/-! ### Embeddings -/

namespace Embedding

def IsFinite (e : Embedding) : Prop := ∀ x ∈ e.values, x.isInfinite = false

instance (e : Embedding) : Decidable e.IsFinite := List.decidableBAll _ _

def Canonical (e : Embedding) : Prop := ∀ x ∈ e.values, x.Canonical

theorem gives : shape.Gives Canonical :=
  .record (.any (.cons .nil (Shape.Gives.real Format.proper_single .f32).list nofun))
    fun _ h => h.2.1

theorem writable {e : Embedding} (hcanonical : e.Canonical) (hfinite : e.IsFinite) :
    shape.Writable e := by
  have hvalues : (Shape.list (.real .f32)).Writable e.values :=
    Shape.writable_list fun x hx => Shape.writable_single (hcanonical x hx) (hfinite x hx)
  refine Shape.writable_record (by decide) ?_ rfl
  exact Fields.writable_required (IntegerKind.writable_u32 _)
    (Fields.writable_required hvalues trivial)

def members (e : Embedding) : List (String × Doc) :=
  [("index", (Shape.integer .u32).toDoc e.index),
    ("values", (Shape.list (.real .f32)).toDoc e.values)]

theorem toDoc_eq (e : Embedding) :
    shape.toDoc e = .object (e.members.map fun m => (.ok m.1, m.2)) .closed := rfl

theorem plain {e : Embedding} (h : e.Canonical) : (shape.toDoc e).Plain := by
  rw [toDoc_eq]
  refine .object (List.forall_mem_cons.2 ⟨.number (Numeral.proper_ofInt _), ?_⟩)
  exact List.forall_mem_singleton.2 (Shape.plain_list fun x hx => Shape.plain_single (h x hx))

theorem isFinite_of_canRead {e : Embedding} (h : shape.CanRead (shape.toDoc e)) :
    e.IsFinite := by
  rw [toDoc_eq] at h
  have hmember := h.of_mem_object (List.mem_cons_of_mem _ List.mem_cons_self)
  have hvalues := (hmember.other (by decide : "index" ≠ "values")).own
  intro x hx
  exact (hvalues.of_mem_list (List.mem_map_of_mem hx)).isInfinite_eq_false

end Embedding

theorem EmbeddingsUsage.writable (u : EmbeddingsUsage) : shape.Writable u := by
  refine Shape.writable_record (by decide) ?_ rfl
  exact Fields.writable_required (IntegerKind.writable_u32 _)
    (Fields.writable_required (IntegerKind.writable_u32 _) trivial)

namespace EmbeddingsResponse

/-- All values of its embeddings are finite. -/
def IsFinite (r : EmbeddingsResponse) : Prop := ∀ e ∈ r.embeddings, e.IsFinite

instance (r : EmbeddingsResponse) : Decidable r.IsFinite := List.decidableBAll _ _

def Canonical (r : EmbeddingsResponse) : Prop := ∀ e ∈ r.embeddings, e.Canonical

theorem gives : shape.Gives Canonical :=
  .record (.any (.cons (.any .nil) Embedding.gives.list nofun)) fun _ h => h.2.1

theorem writable {r : EmbeddingsResponse} (hcanonical : r.Canonical) (hfinite : r.IsFinite) :
    shape.Writable r := by
  have hembeddings : (Shape.list Embedding.shape).Writable r.embeddings :=
    Shape.writable_list fun e he => Embedding.writable (hcanonical e he) (hfinite e he)
  refine Shape.writable_record (by decide) ?_ rfl
  exact Fields.writable_defaulted trivial
    (Fields.writable_defaulted hembeddings (Fields.writable_defaulted r.usage.writable trivial))

def members (r : EmbeddingsResponse) : List (String × Doc) :=
  [("model", .text (.ok r.model)), ("embeddings", (Shape.list Embedding.shape).toDoc r.embeddings),
    ("usage", EmbeddingsUsage.shape.toDoc r.usage)]

theorem toDoc_eq (r : EmbeddingsResponse) :
    shape.toDoc r = .object (r.members.map fun m => (.ok m.1, m.2)) .closed := rfl

theorem plain {r : EmbeddingsResponse} (h : r.Canonical) : (shape.toDoc r).Plain := by
  have hembeddings : ((Shape.list Embedding.shape).toDoc r.embeddings).Plain :=
    Shape.plain_list fun e he => Embedding.plain (h e he)
  rw [toDoc_eq]
  refine .object (List.forall_mem_cons.2 ⟨.text _, List.forall_mem_cons.2 ⟨hembeddings, ?_⟩⟩)
  exact List.forall_mem_singleton.2 (Shape.plain_toDoc _ _ r.usage.writable)

theorem isFinite_of_canRead {r : EmbeddingsResponse} (h : shape.CanRead (shape.toDoc r)) :
    r.IsFinite := by
  rw [toDoc_eq] at h
  have hmember := h.of_mem_object (List.mem_cons_of_mem _ List.mem_cons_self)
  have hembeddings := (hmember.other (by decide : "model" ≠ "embeddings")).own
  intro e he
  exact Embedding.isFinite_of_canRead (hembeddings.of_mem_list (List.mem_map_of_mem he))

/-- The text of an answer is read just if all values are finite, and then as this answer. -/
theorem decodeText_encode_cases {r : EmbeddingsResponse} (h : r.Canonical) :
    (r.IsFinite → shape.decodeText (shape.encode r) = .ok r) ∧
      (¬ r.IsFinite → ∀ r', shape.decodeText (shape.encode r) ≠ .ok r') := by
  refine ⟨fun hfinite => shape.decodeText_encode (writable h hfinite) (by decide), ?_⟩
  intro hinfinite r' hread
  rw [Shape.decodeText, Shape.encode, scanText_print (plain h)] at hread
  obtain ⟨value, hvalue, -⟩ := exists_of_bind hread
  exact hinfinite (isFinite_of_canRead ⟨_, value, hvalue⟩)

end EmbeddingsResponse

/-! ### Chat requests -/

namespace ChatRequest

/-- The request as a reader of its text takes it, without an infinite temperature. -/
def withFiniteTemperature (r : ChatRequest) : ChatRequest :=
  { r with temperature := r.temperature.filter fun x => !x.isInfinite }

/-- The shape of requests, but for an absent temperature that is written as `null`. -/
def nullableShape : Shape ChatRequest :=
  .record "ChatCompletionRequest"
    (.defaulted "model" .text "" <| .defaulted "messages" (.list ChatMessage.shape) [] <|
      .nullable "temperature" (.real .f32) <| .omissible "max_tokens" (.integer .u32) <|
      .defaulted "stream" .flag false .nil)
    (fun (model, messages, temperature, maxTokens, stream, _) =>
      { model, messages, temperature, maxTokens, stream })
    (fun r => (r.model, r.messages, r.temperature, r.maxTokens, r.stream, ()))

theorem extends_nullableShape : shape.Extends nullableShape id :=
  .record (.cons (.cons (.cons (.cons (.cons .nil (.refl _) rfl) (.refl _) rfl) (.refl _) rfl)
    (.refl _) rfl) (.refl _) rfl) fun _ => rfl

def Canonical (r : ChatRequest) : Prop := ∀ x ∈ r.temperature, x.Canonical

theorem gives : shape.Gives Canonical := by
  have htemperature := (Shape.Gives.real Format.proper_single .f32).optional
  have hnone : ∀ o ∈ some (none : Option Single), ∀ x ∈ o, x.Canonical := by
    rintro _ ⟨⟩
    nofun
  exact .record (.any (.any (.cons (.any (.any .nil)) htemperature hnone))) fun _ h => h.2.2.1

/-- A request without temperature loses nothing in writing, also if that is written. -/
theorem writable_nullableShape {r : ChatRequest} (h : r.temperature = none) :
    nullableShape.Writable r := by
  have hmessages : (Shape.list ChatMessage.shape).Writable r.messages :=
    Shape.writable_list fun m _ => m.writable
  refine Shape.writable_record (by decide) ?_ rfl
  exact Fields.writable_defaulted trivial (Fields.writable_defaulted hmessages
    (Fields.writable_nullable (fun x hx => by cases h ▸ hx)
      (Fields.writable_omissible (fun n _ => ⟨IntegerKind.writable_u32 n, nofun⟩)
        (Fields.writable_defaulted trivial trivial))))

/-- An infinite temperature is written as `null`, and read as none. -/
theorem decodeText_encode_infinite {r : ChatRequest} {negative : Bool}
    (h : r.temperature = some (.infinite negative)) :
    shape.decodeText (shape.encode r) = .ok { r with temperature := none } := by
  have hencode : shape.encode r = nullableShape.encode { r with temperature := none } := by
    obtain ⟨model, messages, temperature, maxTokens, stream⟩ := r
    obtain rfl : temperature = some (.infinite negative) := h
    rfl
  have hread : nullableShape.decodeText (shape.encode r) = .ok { r with temperature := none } := by
    rw [hencode]
    exact nullableShape.decodeText_encode (writable_nullableShape rfl) (by decide)
  obtain ⟨r', hr', rfl⟩ := extends_nullableShape.decodeText hread
  exact hr'

theorem decodeText_encode {r : ChatRequest} (h : r.Canonical) :
    shape.decodeText (shape.encode r) = .ok r.withFiniteTemperature := by
  obtain ⟨model, messages, temperature, maxTokens, stream⟩ := r
  cases temperature with
  | none => exact shape.decodeText_encode (writable rfl) (by decide)
  | some x =>
    cases x with
    | infinite negative => exact decodeText_encode_infinite rfl
    | finite negative m e =>
      refine shape.decodeText_encode (writable_of_temperature fun y hy => ?_) (by decide)
      cases hy
      exact ⟨Shape.writable_single (h _ rfl) rfl, nofun⟩

end ChatRequest

/-- Whatever answer with embeddings is read comes back from its text, with all its embeddings and
values, if the values are finite; if one is not, the text is not read as any answer. Whatever chat
request is read comes back from the body that is posted to a node, but without its temperature if
that is infinite. -/
theorem passed_on_unless_infinite (base : String) :
    (∀ bytes r, EmbeddingsResponse.shape.decode bytes = .ok r →
      (r.IsFinite →
        EmbeddingsResponse.shape.decodeText (EmbeddingsResponse.shape.encode r) = .ok r) ∧
      (¬ r.IsFinite →
        ∀ r', EmbeddingsResponse.shape.decodeText (EmbeddingsResponse.shape.encode r) ≠ .ok r')) ∧
    (∀ bytes r, ChatRequest.shape.decode bytes = .ok r →
      ChatRequest.shape.decodeText (Agent.postChat base r).body = .ok r.withFiniteTemperature) := by
  constructor
  · intro bytes r h
    exact EmbeddingsResponse.decodeText_encode_cases (EmbeddingsResponse.gives.decode h)
  · intro bytes r h
    exact ChatRequest.decodeText_encode (ChatRequest.gives.decode h)

/-- The values `0.1` and the greatest of all come back, none does beside `1e39`, and a temperature
just too large becomes none. -/
theorem passed_on_unless_infinite_edges :
    let good : EmbeddingsResponse := { embeddings := [{ index := 7, values :=
      [.finite false 13421773 (-27), .finite true 16777215 104] }] }
    let bad : EmbeddingsResponse := { embeddings := [{ index := 0, values :=
      [.finite false 8388608 (-24), .infinite false] }] }
    let hot : ChatRequest := { model := "m", temperature := some (.infinite false) }
    EmbeddingsResponse.shape.decodeText (EmbeddingsResponse.shape.encode good) = .ok good ∧
      (∀ r, EmbeddingsResponse.shape.decodeText (EmbeddingsResponse.shape.encode bad) ≠ .ok r) ∧
      ChatRequest.shape.decodeText (Agent.postChat "http://n" hot).body =
        .ok { hot with temperature := none } := by
  intro good bad hot
  obtain ⟨hembeddings, hchat⟩ := passed_on_unless_infinite "http://n"
  have hgood : EmbeddingsResponse.shape.decode (Utf8.encode
      "\x7b\"embeddings\":[\x7b\"index\":7,\"values\":[0.1,-3.4028235677973365e38]\x7d]\x7d") =
        .ok good := of_toOption (by decide +kernel)
  have hbad : EmbeddingsResponse.shape.decode (Utf8.encode
      "\x7b\"embeddings\":[\x7b\"index\":0,\"values\":[0.5,1e39]\x7d]\x7d") =
        .ok bad := of_toOption (by decide +kernel)
  have hhot : ChatRequest.shape.decode (Utf8.encode
      "\x7b\"model\":\"m\",\"temperature\":3.4028235677973366e38\x7d") =
        .ok hot := of_toOption (by decide +kernel)
  obtain ⟨hreturn, -⟩ := hembeddings _ _ hgood
  obtain ⟨-, hlost⟩ := hembeddings _ _ hbad
  exact ⟨hreturn (by decide), hlost (by decide), hchat _ _ hhot⟩

/-- An answer is read whose text is not read, and a request whose temperature is lost on its way. -/
theorem infinities_not_passed_on :
    let answer := "\x7b\"embeddings\":[\x7b\"index\":0,\"values\":[1e39]\x7d]\x7d"
    let request := "\x7b\"temperature\":1e39\x7d"
    let r : EmbeddingsResponse := { embeddings := [{ index := 0, values := [.infinite false] }] }
    let q : ChatRequest := { temperature := some (.infinite false) }
    (EmbeddingsResponse.shape.decodeText answer).toOption = some r ∧
      (EmbeddingsResponse.shape.decodeText (EmbeddingsResponse.shape.encode r)).toOption = none ∧
      (ChatRequest.shape.decodeText request).toOption = some q ∧
      (ChatRequest.shape.decodeText (ChatRequest.shape.encode q)).toOption =
        some { q with temperature := none } := by decide +kernel

end InferenceFleet
