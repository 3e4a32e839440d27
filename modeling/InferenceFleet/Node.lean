import InferenceFleet.Json.Shape

/-!
# Nodes

A node serves requests for some models. It reports what it is made of, and the registry notes when
it was last heard from.
-/

namespace InferenceFleet

open Json

structure Accelerator where
  vendor : String
  model : String
  memoryBytes : UInt64 := 0
  deriving DecidableEq

def Accelerator.shape : Shape Accelerator :=
  .record "Accelerator"
    (.required "vendor" .text <| .required "model" .text <|
      .defaulted "memory_bytes" (.integer .u64) 0 .nil)
    (fun (vendor, model, memoryBytes, _) => { vendor, model, memoryBytes })
    (fun a => (a.vendor, a.model, a.memoryBytes, ()))

structure Capabilities where
  cpuCores : UInt32 := 0
  cpuModel : String := ""
  memoryBytes : UInt64 := 0
  os : String := ""
  accelerators : List Accelerator := []
  labels : Keyed String := .empty
  deriving DecidableEq

def Capabilities.shape : Shape Capabilities :=
  .record "Capabilities"
    (.defaulted "cpu_cores" (.integer .u32) 0 <| .defaulted "cpu_model" .text "" <|
      .defaulted "memory_bytes" (.integer .u64) 0 <| .defaulted "os" .text "" <|
      .defaulted "accelerators" (.list Accelerator.shape) [] <|
      .defaulted "labels" .labels .empty .nil)
    (fun (cpuCores, cpuModel, memoryBytes, os, accelerators, labels, _) =>
      { cpuCores, cpuModel, memoryBytes, os, accelerators, labels })
    (fun c => (c.cpuCores, c.cpuModel, c.memoryBytes, c.os, c.accelerators, c.labels, ()))

structure Node where
  id : String
  hostname : String
  capabilities : Capabilities := {}
  agentAddress : String := ""
  lastSeen : Option Instant := none
  deriving DecidableEq

namespace Node

/-- The port of an agent whose node gives no address. -/
def defaultAgentPort : Nat := 50052

/-- Where the node's agent is reached: its address, or the default port of its host. -/
def agentTarget (n : Node) : String :=
  if n.agentAddress.isEmpty then n.hostname ++ ":" ++ decimal defaultAgentPort else n.agentAddress

def shape : Shape Node :=
  .record "Node"
    (.required "id" .text <| .required "hostname" .text <|
      .defaulted "capabilities" Capabilities.shape {} <| .defaulted "agent_address" .text "" <|
      .nullable "last_seen" .instant .nil)
    (fun (id, hostname, capabilities, agentAddress, lastSeen, _) =>
      { id, hostname, capabilities, agentAddress, lastSeen })
    (fun n => (n.id, n.hostname, n.capabilities, n.agentAddress, n.lastSeen, ()))

end Node

end InferenceFleet
