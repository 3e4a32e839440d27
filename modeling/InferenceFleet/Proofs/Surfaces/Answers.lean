import InferenceFleet.Gateway.Surface
import InferenceFleet.Proofs.Fleet.Life
import InferenceFleet.Rpc.Surface

/-!
# What serving a request comes to

Whatever a surface does for a request, it does at most one operation of the control plane
(`operated_handle`). `Rpc.Answers` lists what an endpoint of the control surface can answer; it is read
off the endpoints once.
-/

namespace InferenceFleet

open Http

namespace Fleet

def Event.isMove : Event → Bool
  | .move _ => true
  | _ => false

/-- `g` is what at most one operation of the control plane makes of `f`. -/
def Operated (f g : Fleet) : Prop := g = f ∨ ∃ e : Event, e.isMove = false ∧ g = f.after e

end Fleet

/-! ### The control surface -/

namespace Rpc

/-- The request gets to the endpoint: its body is within the limit, its job id is a text. -/
def Endpoint.Admits (body : List UInt8) : Endpoint → Prop
  | .job segment => (Utf8.decode? (Percent.decodeText segment)).isSome
  | e => e.method = .post → body.length ≤ bodyLimit

/-- All that an endpoint can make of a request. -/
inductive Answers (f : Fleet) (e : Endpoint) (body : List UInt8) : Response × Fleet → Prop where
  | done {response : Response} {g : Fleet} : response.status = 200 → f.Operated g →
    Answers f e body (response, g)
  | refused (refusal : Refusal) {g : Fleet} : f.Operated g → Answers f e body (refuse refusal, g)
  /-- The id of a job is no text. -/
  | unread : ¬ e.Admits body → Answers f e body (badSegment, f)

section
variable {f : Fleet} {e : Endpoint} {body : List UInt8} {α : Type}

theorem answers_respond (s : Json.Shape α) {outcome : Except Refusal α × Fleet}
    (h : f.Operated outcome.2) : Answers f e body (respond s outcome) := by
  obtain ⟨result, g⟩ := outcome
  cases result with
  | ok a => exact .done rfl h
  | error refusal => exact .refused refusal h

theorem answers_withBody {s : Json.Shape α} {operation : α → Response × Fleet}
    (h : ∀ a, Answers f e body (operation a)) :
    Answers f e body (withBody f s body operation) := by
  unfold withBody
  cases readBody s body with
  | ok a => exact h a
  | error refusal => exact .refused refusal (.inl rfl)

end

theorem answers_serve (f : Fleet) (agents : Agents) (now : Instant) (e : Endpoint)
    (body : List UInt8) : Answers f e body (serve f agents now e body) := by
  have hoperated : ∀ e : Fleet.Event, e.isMove = false → f.Operated (f.after e) := fun e hmove =>
    .inr ⟨e, hmove, rfl⟩
  cases e with
  | health => exact .done rfl (.inl rfl)
  | nodes => exact .done rfl (.inl rfl)
  | job segment =>
    simp only [serve]
    cases hid : Utf8.decode? (Percent.decodeText segment) with
    | some id => exact answers_respond _ (.inl rfl)
    | none => exact .unread (by simp [Endpoint.Admits, hid])
  | register => exact answers_withBody fun r => answers_respond _ (hoperated (.register now r) rfl)
  | heartbeat => exact answers_withBody fun r => answers_respond _ (hoperated (.heartbeat now r) rfl)
  | update => exact answers_withBody fun r => answers_respond _ (hoperated (.update now r) rfl)
  | submit => exact answers_withBody fun r => answers_respond _ (hoperated (.submit now r) rfl)
  | chat =>
    refine answers_withBody fun r => ?_
    have hchat := hoperated (.chat agents r) rfl
    rw [Fleet.after] at hchat
    split <;> rename_i heq <;> rw [heq] at hchat
    · exact .done rfl hchat
    · exact .refused _ hchat
  | embeddings =>
    exact answers_withBody fun r => answers_respond _ (hoperated (.embeddings agents r) rfl)

theorem operated_handle (f : Fleet) (agents : Agents) (now : Instant) (r : Request) :
    f.Operated (handle f agents now r).2 := by
  unfold handle
  split
  · exact .inl rfl
  · rename_i e _
    split
    · split
      · exact .inl rfl
      · have hanswers := answers_serve f agents now e r.body
        generalize serve f agents now e r.body = answer at hanswers
        cases hanswers with
        | done _ hoperated => exact hoperated
        | refused _ hoperated => exact hoperated
        | unread => exact .inl rfl
    · exact .inl rfl

end Rpc

/-! ### The gateway -/

namespace Gateway

theorem operated_serve (f : Fleet) (agents : Agents) (e : Endpoint) (body : List UInt8) :
    f.Operated (serve f agents e body).2 := by
  cases e with
  | health => exact .inl rfl
  | nodes => exact .inl rfl
  | chat =>
    simp only [serve]
    split
    · exact .inl rfl
    · rename_i r _
      refine .inr ⟨.chat agents r.toInternal, rfl, ?_⟩
      rw [Fleet.after]
      split <;> rename_i heq <;> rw [heq]
  | embeddings =>
    simp only [serve]
    split
    · exact .inl rfl
    · rename_i r _
      refine .inr ⟨.embeddings agents r.toInternal, rfl, ?_⟩
      rw [Fleet.after]
      split <;> rename_i heq <;> rw [heq]

theorem operated_handle (f : Fleet) (agents : Agents) (key : ApiKey) (r : Request) :
    f.Operated (handle f agents key r).2 := by
  unfold handle
  split
  · exact .inl rfl
  · simp only [route]
    split
    · exact .inl rfl
    · split
      · exact .inl rfl
      · split
        · exact .inl rfl
        · split
          · exact .inl rfl
          · exact operated_serve ..

end Gateway

end InferenceFleet
