import InferenceFleet.Agent.Address
import InferenceFleet.Embeddings
import InferenceFleet.EventStream.Decoder

/-!
# Calling a node agent

A call is one HTTP exchange: a request is posted to the agent, and either nobody answers or an
answer arrives with a status and a body in pieces. What the call yields is read off the exchange.
-/

namespace InferenceFleet.Agent

/-- A request as it is posted. -/
structure Posting where
  url : String
  body : String
  deriving DecidableEq

def contentType : String := "application/json"

def chatPath : String := "/v1/node/chat/completions"

def embeddingsPath : String := "/v1/node/embeddings"

def postChat (base : String) (r : ChatRequest) : Posting :=
  { url := base ++ chatPath, body := ChatRequest.shape.encode r }

def postEmbeddings (base : String) (r : EmbeddingsRequest) : Posting :=
  { url := base ++ embeddingsPath, body := EmbeddingsRequest.shape.encode r }

/-- What comes back. -/
inductive Exchange where
  /-- No answer. -/
  | refused (reason : String)
  | answered (status : Nat) (pieces : List (List UInt8)) (ending : EventStream.BodyEnd)

/-- The phrases that belong to statuses. -/
def phrases : List (Nat × String) :=
  [(100, "Continue"), (101, "Switching Protocols"), (102, "Processing"), (103, "Early Hints"),
    (200, "OK"), (201, "Created"), (202, "Accepted"), (203, "Non Authoritative Information"),
    (204, "No Content"), (205, "Reset Content"), (206, "Partial Content"), (207, "Multi-Status"),
    (208, "Already Reported"), (226, "IM Used"), (300, "Multiple Choices"),
    (301, "Moved Permanently"), (302, "Found"), (303, "See Other"), (304, "Not Modified"),
    (305, "Use Proxy"), (307, "Temporary Redirect"), (308, "Permanent Redirect"),
    (400, "Bad Request"), (401, "Unauthorized"), (402, "Payment Required"), (403, "Forbidden"),
    (404, "Not Found"), (405, "Method Not Allowed"), (406, "Not Acceptable"),
    (407, "Proxy Authentication Required"), (408, "Request Timeout"), (409, "Conflict"),
    (410, "Gone"), (411, "Length Required"), (412, "Precondition Failed"),
    (413, "Payload Too Large"), (414, "URI Too Long"), (415, "Unsupported Media Type"),
    (416, "Range Not Satisfiable"), (417, "Expectation Failed"), (418, "I'm a teapot"),
    (421, "Misdirected Request"), (422, "Unprocessable Entity"), (423, "Locked"),
    (424, "Failed Dependency"), (425, "Too Early"), (426, "Upgrade Required"),
    (428, "Precondition Required"), (429, "Too Many Requests"),
    (431, "Request Header Fields Too Large"), (451, "Unavailable For Legal Reasons"),
    (500, "Internal Server Error"), (501, "Not Implemented"), (502, "Bad Gateway"),
    (503, "Service Unavailable"), (504, "Gateway Timeout"), (505, "HTTP Version Not Supported"),
    (506, "Variant Also Negotiates"), (507, "Insufficient Storage"), (508, "Loop Detected"),
    (510, "Not Extended"), (511, "Network Authentication Required")]

def showStatus (status : Nat) : String :=
  decimal status ++ " " ++ (phrases.lookup status).getD "<unknown status code>"

def isSuccess (status : Nat) : Bool := 200 ≤ status && status < 300

/-- What an answer with another status than success says; a broken body counts as empty. -/
def rejection (status : Nat) (body : List UInt8) (ending : EventStream.BodyEnd) : AgentFault :=
  let text := match ending with
    | .clean => Utf8.decodeLossy body
    | .broken _ => ""
  .remote ("HTTP " ++ showStatus status ++ ": " ++ text)

/-- The items of a chat answer. -/
def readChat : Exchange → Except AgentFault (List Item)
  | .refused reason => .error (.connect reason)
  | .answered status pieces ending =>
    if isSuccess status then .ok (EventStream.decode pieces ending)
    else .error (rejection status pieces.flatten ending)

def readEmbeddings : Exchange → Except AgentFault EmbeddingsResponse
  | .refused reason => .error (.connect reason)
  | .answered status pieces ending =>
    if isSuccess status then
      match ending with
      | .broken reason => .error (.stream reason)
      | .clean =>
        match EmbeddingsResponse.shape.decode pieces.flatten with
        | .ok r => .ok r
        | .error f => .error (.decode f)
    else .error (rejection status pieces.flatten ending)

/-- A chat call at a target: what is posted, and the items that `exchange` brings back. -/
def callChat (target : String) (r : ChatRequest) (exchange : Posting → Exchange) :
    Option Posting × Except AgentFault (List Item) :=
  match AgentAddress.baseUrl target with
  | .error f => (none, .error f)
  | .ok base => (some (postChat base r), readChat (exchange (postChat base r)))

def callEmbeddings (target : String) (r : EmbeddingsRequest) (exchange : Posting → Exchange) :
    Option Posting × Except AgentFault EmbeddingsResponse :=
  match AgentAddress.baseUrl target with
  | .error f => (none, .error f)
  | .ok base => (some (postEmbeddings base r), readEmbeddings (exchange (postEmbeddings base r)))

end InferenceFleet.Agent
