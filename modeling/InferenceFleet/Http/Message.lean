import InferenceFleet.Failure

/-!
# HTTP messages

A request and a response as the two surfaces see them, and what every surface does alike: finding
the path in a request's target, refusing a body that is too long, answering a method that a path
does not have.
-/

namespace InferenceFleet.Http

open Json

structure Request where
  method : String
  /-- The path with the query, as requested. -/
  target : String
  /-- Names in any case, values as bytes. -/
  headers : List (String × List UInt8) := []
  body : List UInt8 := []

structure Response where
  status : Nat
  headers : List (String × String) := []
  body : String := ""
  deriving DecidableEq

namespace Request

/-- The path without query and fragment. -/
def path (r : Request) : List Char := r.target.toList.takeWhile fun c => c != '?' && c != '#'

/-- The values of the headers called `name`, in order. -/
def header (r : Request) (name : String) : List (List UInt8) :=
  (r.headers.filter fun h => h.1.toLower == name).map (·.2)

end Request

def jsonType : String := "application/json"

def textType : String := "text/plain; charset=utf-8"

def eventStreamType : String := "text/event-stream"

namespace Response

def withHeader (r : Response) (name value : String) : Response :=
  { r with headers := r.headers ++ [(name, value)] }

def empty (status : Nat) : Response := { status }

def typed (status : Nat) (contentType body : String) : Response :=
  { status, headers := [("content-type", contentType)], body }

/-- A value as JSON. -/
def ofShape {α : Type} (s : Shape α) (status : Nat) (a : α) : Response :=
  typed status jsonType (s.encode a)

/-- The events of a stream. -/
def events (body : String) : Response :=
  (typed 200 eventStreamType body).withHeader "cache-control" "no-cache"

/-- The response without its body. -/
def headOnly (r : Response) : Response := { r with body := "" }

end Response

/-- The greatest number of bytes in a request's body. -/
def bodyLimit : Nat := 2 * 1024 * 1024

/-- Whether a list has more than `n` members. -/
def exceeds (n : Nat) : List UInt8 → Bool
  | [] => false
  | _ :: bytes =>
    match n with
    | 0 => true
    | n + 1 => exceeds n bytes

def bodyTooLong : Response :=
  .typed 413 textType "Failed to buffer the request body: length limit exceeded"

/-- Reads a body as JSON. A bad one is refused like any other bad argument. -/
def readBody {α : Type} (s : Shape α) (body : List UInt8) : Except Refusal α :=
  match s.decode body with
  | .ok a => .ok a
  | .error f => .error (.invalidArgument ("invalid request body: " ++ f.message))

/-- The one method that a path has; a path that can be got has `HEAD` as well. -/
inductive Method where
  | get | post
  deriving DecidableEq

namespace Method

/-- The methods that are allowed, for the `allow` header. -/
def allowed : Method → String
  | .get => "GET,HEAD"
  | .post => "POST"

def accepts (m : Method) (method : String) : Bool :=
  match m with
  | .get => method == "GET" || method == "HEAD"
  | .post => method == "POST"

end Method

end InferenceFleet.Http
