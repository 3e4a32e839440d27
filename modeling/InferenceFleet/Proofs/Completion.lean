import InferenceFleet.Chat
import Mathlib.Data.List.Forall2

/-!
# From a chunk to a complete answer

Completing a chunk moves the text of each choice to its message. A reader takes the delta first and a
completed choice keeps the message it has, so the text is the same unless a choice has both and they
say different things (`Choice.completes`). Everything else stays, and completing again changes
nothing.
-/

namespace InferenceFleet

namespace Choice

/-- The choice has a delta and a message, and their texts differ. -/
def isDivided (c : Choice) : Bool :=
  match c.delta, c.message with
  | some delta, some message => delta.content != message.content
  | _, _ => false

/-- What becomes of a choice in a complete answer. -/
structure Completes (c d : Choice) : Prop where
  index : d.index = c.index
  finishReason : d.finishReason = c.finishReason
  delta : d.delta = none
  message : d.message = (c.message <|> c.delta)
  text : d.content? = c.content? ↔ c.isDivided = false

theorem content?_completed_iff (c : Choice) :
    c.completed.content? = c.content? ↔ c.isDivided = false := by
  obtain ⟨index, message, delta, finishReason⟩ := c
  cases delta with
  | none =>
    cases message with
    | none => exact iff_of_true rfl rfl
    | some message => exact iff_of_true rfl rfl
  | some delta =>
    cases message with
    | none => exact iff_of_true rfl rfl
    | some message =>
      change some message.content = some delta.content ↔ (delta.content != message.content) = false
      rw [bne_eq_false_iff_eq, Option.some_inj]
      exact eq_comm

theorem completes (c : Choice) : c.Completes c.completed where
  index := rfl
  finishReason := rfl
  delta := rfl
  message := rfl
  text := c.content?_completed_iff

theorem completed_completed (c : Choice) : c.completed.completed = c.completed := by
  obtain ⟨index, message, delta, finishReason⟩ := c
  cases message with
  | none => cases delta <;> rfl
  | some message => rfl

end Choice

namespace Chunk

theorem head?_completion (c : Chunk) :
    c.completion.choices.head? = c.choices.head?.map Choice.completed := List.head?_map

theorem content?_completion_iff (c : Chunk) :
    c.completion.content? = c.content? ↔ c.choices.head?.any Choice.isDivided = false := by
  rw [content?, content?, head?_completion]
  cases c.choices.head? with
  | none => exact iff_of_true rfl rfl
  | some first => exact first.content?_completed_iff

theorem completion_completion (c : Chunk) : c.completion.completion = c.completion := by
  have hchoices : (c.choices.map Choice.completed).map Choice.completed =
      c.choices.map Choice.completed := by
    rw [List.map_map]
    exact List.map_congr_left fun choice _ => choice.completed_completed
  rw [completion, completion, hchoices]

/-- The complete answer has the text of the chunk unless the first choice is divided, and the same
holds of every choice. A divided choice keeps its message. No choice keeps a delta; all else is as
before, the choices in their order, and completing twice is completing once. -/
theorem completion_keeps (c : Chunk) :
    (c.completion.content? = c.content? ↔ c.choices.head?.any Choice.isDivided = false) ∧
      List.Forall₂ Choice.Completes c.choices c.completion.choices ∧
      c.completion.id = c.id ∧ c.completion.created = c.created ∧
      c.completion.model = c.model ∧ c.completion.usage = c.usage ∧
      c.completion.completion = c.completion := by
  refine ⟨c.content?_completion_iff, ?_, rfl, rfl, rfl, rfl, c.completion_completion⟩
  exact List.forall₂_map_right_iff.2 (List.forall₂_same.2 fun choice _ => choice.completes)

/-- A first choice with a delta and a message: the text that is read changes from the one to the
other. -/
theorem divided_text_changes :
    let say (content : String) : ChatMessage := { role := "assistant", content }
    let c : Chunk := { choices := [{ message := some (say "whole"), delta := some (say "part") }] }
    c.content? = some "part" ∧ c.completion.content? = some "whole" := by decide

end Chunk

end InferenceFleet
