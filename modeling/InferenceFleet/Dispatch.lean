import InferenceFleet.Fleet.Basic
import InferenceFleet.Relay

/-!
# Interactive dispatch

A request is checked, given to the first node, and the node's answer is passed on. `Agents` is the
world outside as one dispatch sees it: what a dial of a target brings, and what the agent there
answers to a request.
-/

namespace InferenceFleet

structure Agents where
  dial : String → Except AgentFault Unit
  chat : String → ChatRequest → Except AgentFault (List Item)
  embeddings : String → EmbeddingsRequest → Except AgentFault EmbeddingsResponse

namespace Fleet

/-- The client for a node, dialled if there is none. -/
def clientFor (f : Fleet) (agents : Agents) (n : Node) : Except AgentFault String × Fleet :=
  let (slot, clients) := f.clients.slotFor n.id
  { f with clients }.connect slot n.agentTarget (agents.dial n.agentTarget)

/-- Selects a node for the model and calls it with its client. -/
def withNode {α : Type} (f : Fleet) (agents : Agents) (model : String)
    (call : Fleet → String → Except AgentFault α × Fleet) : Except DispatchFault α × Fleet :=
  match f.registry.select model with
  | .error fault => (.error (.noNode fault), f)
  | .ok node =>
    match f.clientFor agents node with
    | (.error fault, f) => (.error (.node node.id fault), f)
    | (.ok target, f) =>
      match call f target with
      | (.ok a, f) => (.ok a, f)
      | (.error fault, f) => (.error (.node node.id fault), f)

/-- Starts a chat completion: the items that the node streams. -/
def dispatchChat (f : Fleet) (agents : Agents) (r : ChatRequest) :
    Except DispatchFault (List Item) × Fleet :=
  if r.model.isEmpty then (.error (.invalidRequest "model is required"), f)
  else if r.messages.isEmpty then (.error (.invalidRequest "messages is required"), f)
  else f.withNode agents r.model fun f target => (agents.chat target r, f.ask target (.chat r))

def dispatchEmbeddings (f : Fleet) (agents : Agents) (r : EmbeddingsRequest) :
    Except DispatchFault EmbeddingsResponse × Fleet :=
  if r.model.isEmpty then (.error (.invalidRequest "model is required"), f)
  else if r.input.isEmpty then (.error (.invalidRequest "input is required"), f)
  else
    f.withNode agents r.model fun f target =>
      (agents.embeddings target r, f.ask target (.embeddings r))

end Fleet

end InferenceFleet
