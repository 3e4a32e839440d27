import InferenceFleet.EventStream.Frame

/-!
# The relay

Between a node's stream and the caller stands a buffer of sixteen items. A producer pulls items from
the node and sends them on; it stops after the first failure, and when the caller has gone. Producer
and caller take their steps in any order. `untilFault` is what a patient caller receives.
-/

namespace InferenceFleet

/-- The items up to the first failure and with it. -/
def untilFault : List Item → List Item
  | [] => []
  | .ok chunk :: is => .ok chunk :: untilFault is
  | .error f :: _ => [.error f]

structure Relay where
  /-- What the node still has to say. -/
  source : List Item
  /-- The item that the producer has pulled and not sent. -/
  held : Option Item := none
  /-- Sent and not received, oldest first. -/
  buffer : List Item := []
  /-- Received by the caller, oldest first. -/
  received : List Item := []
  /-- The producer has stopped and let go of the node's stream. -/
  stopped : Bool := false
  /-- The caller has gone. -/
  dropped : Bool := false

namespace Relay

/-- Items buffered between the node and the caller. -/
def capacity : Nat := 16

inductive Move where
  /-- The producer takes an item from the node, or learns that there is none. -/
  | pull
  /-- The producer hands its item on, or learns that the caller has gone. -/
  | send
  | receive
  | drop
  deriving DecidableEq

def isFault : Item → Bool
  | .ok _ => false
  | .error _ => true

/-- The relay after a step; `none` when the step cannot be taken now. -/
def step (r : Relay) : Move → Option Relay
  | .pull =>
    if r.stopped || r.held.isSome then none
    else
      match r.source with
      | [] => some { r with stopped := true }
      | i :: is => some { r with source := is, held := some i }
  | .send =>
    match r.held with
    | none => none
    | some i =>
      if r.dropped then some { r with held := none, stopped := true }
      else if r.buffer.length < capacity then
        some { r with held := none, buffer := r.buffer ++ [i], stopped := isFault i }
      else none
  | .receive =>
    if r.dropped then none
    else
      match r.buffer with
      | [] => none
      | i :: is => some { r with buffer := is, received := r.received ++ [i] }
  | .drop => if r.dropped then none else some { r with dropped := true }

/-- The relay after some steps, those that cannot be taken being passed over. -/
def run (r : Relay) (moves : List Move) : Relay :=
  moves.foldl (fun r m => (r.step m).getD r) r

end Relay

end InferenceFleet
