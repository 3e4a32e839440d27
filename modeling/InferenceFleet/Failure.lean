import InferenceFleet.Messages

/-!
# Failures

Each part of the control plane has its own causes of failure and their wording. A `Refusal` is what
a caller sees of them: one of three kinds, each with its code and its HTTP status. The gateway
tells its clients only whether the fault is theirs.
-/

namespace InferenceFleet

open Json

inductive RegistryFault where
  | notFound (id : String)
  deriving DecidableEq

def RegistryFault.message : RegistryFault → String
  | .notFound id => "node " ++ id ++ " not found"

inductive QueueFault where
  | notFound (id : String)
  | alreadyExists (id : String)
  | invalidTransition (id : String) (source target : JobStatus)
  deriving DecidableEq

def QueueFault.message : QueueFault → String
  | .notFound id => "job " ++ id ++ " not found"
  | .alreadyExists id => "job " ++ id ++ " already exists"
  | .invalidTransition id source target =>
    "job " ++ id ++ " cannot move from " ++ source.name ++ " to " ++ target.name

/-- No node can serve the model. -/
structure NoNode where
  model : String
  deriving DecidableEq

def NoNode.message (f : NoNode) : String := "no node available for model " ++ f.model

/-- What goes wrong in talking to a node agent. -/
inductive AgentFault where
  | connect (reason : String)
  | remote (reason : String)
  | stream (reason : String)
  | decode (fault : Fault)
  deriving DecidableEq

def AgentFault.message : AgentFault → String
  | .connect reason => "failed to connect to node agent: " ++ reason
  | .remote reason => "node agent returned error: " ++ reason
  | .stream reason => "stream from node agent broke: " ++ reason
  | .decode fault => "invalid message from node agent: " ++ fault.message

/-- Why a request is not served. -/
inductive DispatchFault where
  | invalidRequest (reason : String)
  | noNode (fault : NoNode)
  | node (id : String) (source : AgentFault)
  deriving DecidableEq

def DispatchFault.message : DispatchFault → String
  | .invalidRequest reason => reason
  | .noNode fault => fault.message
  | .node id source => "node " ++ id ++ ": " ++ source.message

/-- Why a job fails. -/
inductive JobFault where
  | invalidPayload (kind : JobKind) (fault : Fault)
  | noNode (fault : NoNode)
  | dispatch (nodeId : String) (source : AgentFault)
  | queue (fault : QueueFault)
  deriving DecidableEq

def JobFault.message : JobFault → String
  | .invalidPayload kind fault => "invalid " ++ kind.name ++ " payload: " ++ fault.message
  | .noNode fault => fault.message
  | .dispatch nodeId source => "dispatch to node " ++ nodeId ++ " failed: " ++ source.message
  | .queue fault => fault.message

/-- Why the gateway does not let a client in. -/
inductive AuthFault where
  | missingHeader
  | invalidKey
  deriving DecidableEq

namespace AuthFault

def message : AuthFault → String
  | .missingHeader => "Missing Authorization header"
  | .invalidKey => "Invalid API key"

def body (f : AuthFault) : ErrorBody := .of "authentication_error" f.message

end AuthFault

inductive RefusalKind where
  | invalidArgument
  | notFound
  | internal
  deriving DecidableEq

namespace RefusalKind

def code : RefusalKind → String
  | .invalidArgument => "invalid_argument"
  | .notFound => "not_found"
  | .internal => "internal"

def status : RefusalKind → Nat
  | .invalidArgument => 400
  | .notFound => 404
  | .internal => 500

/-- The status that clients of the gateway see. -/
def gatewayStatus : RefusalKind → Nat
  | .invalidArgument => 400
  | _ => 500

end RefusalKind

structure Refusal where
  kind : RefusalKind
  message : String
  deriving DecidableEq

namespace Refusal

def invalidArgument (message : String) : Refusal := { kind := .invalidArgument, message }

def notFound (message : String) : Refusal := { kind := .notFound, message }

def internal (message : String) : Refusal := { kind := .internal, message }

def body (r : Refusal) : ErrorBody := .of r.kind.code r.message

end Refusal

def RegistryFault.refusal (f : RegistryFault) : Refusal := .notFound f.message

def QueueFault.refusal (f : QueueFault) : Refusal :=
  match f with
  | .notFound _ => .notFound f.message
  | .alreadyExists _ => .invalidArgument f.message
  | .invalidTransition .. => .internal f.message

def NoNode.refusal (f : NoNode) : Refusal := .notFound f.message

def DispatchFault.refusal (f : DispatchFault) : Refusal :=
  match f with
  | .invalidRequest reason => .invalidArgument reason
  | .noNode fault => fault.refusal
  | .node .. => .internal f.message

end InferenceFleet
