import InferenceFleet.Job
import InferenceFleet.Node

/-!
# Messages of the control surface

What node agents and batch clients send to the control plane, and what it answers.
-/

namespace InferenceFleet

open Json

structure RegisterRequest where
  node : Option Node := none
  deriving DecidableEq

def RegisterRequest.shape : Shape RegisterRequest :=
  .record "RegisterNodeRequest" (.nullable "node" Node.shape .nil)
    (fun (node, _) => { node }) (fun r => (r.node, ()))

structure HeartbeatRequest where
  nodeId : String := ""
  deriving DecidableEq

def HeartbeatRequest.shape : Shape HeartbeatRequest :=
  .record "HeartbeatRequest" (.defaulted "node_id" .text "" .nil)
    (fun (nodeId, _) => { nodeId }) (fun r => (r.nodeId, ()))

structure UpdateRequest where
  nodeId : String := ""
  capabilities : Option Capabilities := none
  deriving DecidableEq

def UpdateRequest.shape : Shape UpdateRequest :=
  .record "UpdateNodeRequest"
    (.defaulted "node_id" .text "" <| .nullable "capabilities" Capabilities.shape .nil)
    (fun (nodeId, capabilities, _) => { nodeId, capabilities })
    (fun r => (r.nodeId, r.capabilities, ()))

structure NodeListing where
  nodes : List Node
  deriving DecidableEq

def NodeListing.shape : Shape NodeListing :=
  .record "ListNodesResponse" (.required "nodes" (.list Node.shape) .nil)
    (fun (nodes, _) => { nodes }) (fun r => (r.nodes, ()))

/-- The answer to a message that asks for nothing. -/
structure Ack where
  success : Bool
  deriving DecidableEq

def Ack.shape : Shape Ack :=
  .record "Ack" (.required "success" .flag .nil)
    (fun (success, _) => { success }) (fun r => (r.success, ()))

/-- A job as its client describes it; the kind is any text. -/
structure Submission where
  jobId : String := ""
  jobType : String := ""
  payload : String := ""
  deriving DecidableEq

def Submission.shape : Shape Submission :=
  .record "SubmitJobRequest"
    (.defaulted "job_id" .text "" <| .defaulted "job_type" .text "" <|
      .defaulted "payload" .text "" .nil)
    (fun (jobId, jobType, payload, _) => { jobId, jobType, payload })
    (fun r => (r.jobId, r.jobType, r.payload, ()))

structure SubmissionReceipt where
  jobId : String
  status : JobStatus
  deriving DecidableEq

def SubmissionReceipt.shape : Shape SubmissionReceipt :=
  .record "SubmitJobResponse"
    (.required "job_id" .text <| .required "status" JobStatus.shape .nil)
    (fun (jobId, status, _) => { jobId, status }) (fun r => (r.jobId, r.status, ()))

/-- How far a job has come. -/
structure JobReport where
  jobId : String
  status : JobStatus
  assignedNode : Option String := none
  errorMessage : Option String := none
  result : Option String := none
  deriving DecidableEq

namespace JobReport

def ofJob (j : Job) : JobReport :=
  { jobId := j.id, status := j.status, assignedNode := j.assignedNode
    errorMessage := j.errorMessage, result := j.result }

def shape : Shape JobReport :=
  .record "GetJobStatusResponse"
    (.required "job_id" .text <| .required "status" JobStatus.shape <|
      .nullable "assigned_node" .text <| .nullable "error_message" .text <|
      .nullable "result" .text .nil)
    (fun (jobId, status, assignedNode, errorMessage, result, _) =>
      { jobId, status, assignedNode, errorMessage, result })
    (fun r => (r.jobId, r.status, r.assignedNode, r.errorMessage, r.result, ()))

end JobReport

structure ErrorDetail where
  code : String
  message : String
  deriving DecidableEq

def ErrorDetail.shape : Shape ErrorDetail :=
  .record "ErrorDetail" (.required "type" .text <| .required "message" .text .nil)
    (fun (code, message, _) => { code, message }) (fun r => (r.code, r.message, ()))

/-- The body of every refusal, also as the last event of a stream that broke. -/
structure ErrorBody where
  error : ErrorDetail
  deriving DecidableEq

namespace ErrorBody

def of (code message : String) : ErrorBody := { error := { code, message } }

def shape : Shape ErrorBody :=
  .record "ErrorBody" (.required "error" ErrorDetail.shape .nil)
    (fun (error, _) => { error }) (fun r => (r.error, ()))

end ErrorBody

/-- Liveness and a glance at the fleet. -/
structure Health where
  nodes : Nat
  pendingJobs : Nat

namespace Health

def version : String := "0.1.0"

def toDoc (h : Health) : Doc :=
  .object [(.ok "status", .text (.ok "ok")), (.ok "version", .text (.ok version)),
    (.ok "nodes", .number (.ofNat h.nodes)), (.ok "pending_jobs", .number (.ofNat h.pendingJobs))]
    .closed

end Health

end InferenceFleet
