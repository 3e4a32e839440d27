import InferenceFleet.Gateway.Surface
import InferenceFleet.Rehearsal.Script
import InferenceFleet.Rpc.Surface

/-!
# Rehearsals

A fleet among scripted agents. Nothing happens at the same time here: the processor's loop goes as
far as it can, then the tasks in their order, until only pauses are left. `World.settle` comes to
that point; `World.release` ends the pauses of the moment.
-/

namespace InferenceFleet.Rehearsal

structure World where
  fleet : Fleet
  cast : Cast
  now : Instant
  stamp : Stamp
  /-- The lines that agents have not said yet to the jobs whose stream is read. -/
  streams : List (String × List Line) := []
  /-- The lines left in the relays of callers that have gone; each begins with a pause. -/
  relays : List (List Line) := []

namespace World

open Cast (beforePause)

def agents (w : World) : Agents := w.cast.agents w.stamp w.fleet.dialled

/-- The lines left for a job. -/
def linesOf (w : World) (id : String) : List Line := (w.streams.lookup id).getD []

def setLines (w : World) (id : String) (lines : List Line) : World :=
  { w with streams := (id, lines) :: w.streams.filter fun s => s.1 != id }

/-- What the agent at `target` replies to a request of a task, unless it pauses. -/
def reply? (w : World) (target : String) : Payload → Option Reply
  | .chat _ =>
    match w.cast.lines target with
    | .ok _ => some .streaming
    | .error f => some (.refused f)
  | .embeddings r =>
    match (w.cast.script target).embeddings with
    | .pause => none
    | _ =>
      match w.cast.embeddings target r with
      | .ok response => some (.embeddings response)
      | .error f => some (.refused f)

/-- The request that a task reads the answer to. -/
def requestOf (t : Task) : ChatRequest :=
  match Payload.read t.job with
  | .ok (.chat r) => r
  | _ => {}

/-- The next step of a task and the lines left after it, unless the task waits for the end of a
pause. -/
def nextOf (w : World) (t : Task) : Option (TaskMove × Option (List Line)) :=
  match t.phase with
  | .starting => some (.read, none)
  | .selecting _ => some (.select, none)
  | .marking _ _ => some (.mark w.now, none)
  | .seeking _ _ => some (.seek, none)
  | .dialling _ node _ => some (.dial (w.agents.dial node.agentTarget), none)
  | .asking _ _ _ => some (.ask, none)
  | .waiting payload _ target =>
    (w.reply? target payload).map fun r =>
      (.reply r, match payload, w.cast.lines target with
        | .chat _, .ok lines => some lines
        | _, _ => none)
  | .reading _ _ =>
    if t.cancelled then some (.interrupt, none)
    else
      match w.linesOf t.job.id with
      | [] => some (.over, none)
      | line :: lines => (line.item? w.stamp (requestOf t)).map fun i => (.item i, some lines)
  | .ending _ => some (.record w.now, none)

/-- The next step of the loop, if it can take one. -/
def nextOfLoop (w : World) : Option Move :=
  let p := w.fleet.processor
  match p.loop with
  | .stopped => none
  | .acquiring => if p.cancelled then some .stop else if 0 < p.free then some .acquire else none
  | .polling =>
    if p.cancelled then some .stop
    else if w.fleet.queue.pending.isEmpty then none else some .dequeue
  | .holding _ => some (.assign w.now)
  | .marked _ => some .spawn

/-- The first task from the `index`th on that can take a step, with that step. -/
def nextOfTasks (w : World) (index : Nat) :
    List Task → Option (Nat × Task × TaskMove × Option (List Line))
  | [] => none
  | t :: ts =>
    match w.nextOf t with
    | some (move, lines) => some (index, t, move, lines)
    | none => w.nextOfTasks (index + 1) ts

def move (w : World) (m : Move) : World := { w with fleet := (w.fleet.step m).getD w.fleet }

/-- The loop goes as far as it can in so many steps. -/
def settleLoop (w : World) : Nat → World
  | 0 => w
  | steps + 1 =>
    match w.nextOfLoop with
    | some m => (w.move m).settleLoop steps
    | none => w

/-- Everything goes as far as it can in so many steps. -/
def settleIn (w : World) : Nat → World
  | 0 => w
  | steps + 1 =>
    match w.nextOfLoop with
    | some m => (w.move m).settleIn steps
    | none =>
      match w.nextOfTasks 0 w.fleet.processor.tasks with
      | none => w
      | some (index, t, m, lines) =>
        let w := w.move (.task index m)
        (match lines with
          | some lines => w.setLines t.job.id lines
          | none => w).settleIn steps

/-- The length of an agent's chat answer. -/
def Part.length (p : Part) : Nat :=
  match p.script.chat with
  | .ok lines => lines.length
  | .error _ => 0

/-- More steps than can be taken before only pauses are left: a job takes a dozen steps, and one for
each line of its agent's answer. -/
def patience (w : World) : Nat :=
  let longest := ((w.cast.parts.map (·.2)) ++ w.cast.others.toList).foldl
    (fun n p => max n (Part.length p)) 0
  (w.fleet.queue.pending.length + w.fleet.processor.tasks.length + 1) * (longest + 20)

def settle (w : World) : World := w.settleIn w.patience

/-- Shuts the processor down. -/
def stop (w : World) : World := (w.move .cancel).settle

/-- Starts the processor, after stopping it. -/
def start (w : World) : World := (w.stop.move .start).settle

/-- Ends the pause of a task, if it is in one. -/
def releaseTask (w : World) (index : Nat) (t : Task) : World :=
  match t.phase with
  | .waiting payload _ target =>
    match w.reply? target payload with
    | none => w.move (.task index (.reply (.refused (.remote "released"))))
    | some _ => w
  | .reading _ _ =>
    match w.linesOf t.job.id with
    | .pause :: lines => w.setLines t.job.id lines
    | _ => w
  | _ => w

/-- The relays after the end of their pauses: a relay whose caller has gone stops with its next
item, unless the node pauses again. -/
def releaseRelays (relays : List (List Line)) : List (List Line) :=
  relays.filterMap fun lines =>
    match lines.drop 1 with
    | .pause :: rest => some (.pause :: rest)
    | _ => none

/-- Ends all present pauses. -/
def release (w : World) : World :=
  let released := (w.fleet.processor.tasks.zipIdx).foldl (fun w (t, i) => w.releaseTask i t) w
  { released with relays := releaseRelays w.relays }.settle

/-- Whether a task waits for the end of a pause. -/
def isPaused (w : World) (t : Task) : Bool :=
  match t.phase with
  | .waiting _ _ _ | .reading _ _ => (w.nextOf t).isNone
  | _ => false

/-- How many agents are in a pause. -/
def pauses (w : World) : Nat := w.fleet.processor.tasks.countP w.isPaused + w.relays.length

/-- Starts the processor and the monitor, lets jobs and one sweep go on, and shuts both down. -/
def background (w : World) (timeout : Nat) : World :=
  let started := w.move .start
  let looped := started.settleLoop started.patience
  { looped with fleet := (looped.fleet.sweep w.now timeout).2 }.settle.stop

/-- The lines left to the relay of a caller who took `taken` items and went, if the agent has come
to a pause by then: the relay holds back no more than its buffer. -/
def relayLeft (lines : List Line) (taken : Nat) : Option (List Line) :=
  let early := beforePause lines
  let isBeyond := early.length == lines.length || taken + Relay.capacity < early.length
  if early.any Line.isFault || isBeyond then none
  else some (lines.drop early.length)

/-- The last caller's stream, of which `taken` items were read, is let go. -/
def letGo (w : World) (target : String) (taken : Nat) : World :=
  match w.cast.lines target with
  | .ok lines => { w with relays := w.relays ++ (relayLeft lines taken).toList }
  | .error _ => w

/-- A chat completion for a caller who takes at most `limit` items and goes. -/
def chat (w : World) (r : ChatRequest) (limit : Option Nat) : Except Refusal (List Item) × World :=
  let (result, fleet) := w.fleet.chat w.agents r
  let after := { w with fleet }
  match result, limit with
  | .ok items, some n =>
    (.ok (items.take n), match fleet.asked.getLast? with
      | some asked => after.letGo asked.target (min n items.length)
      | none => after)
  | result, _ => (result, after)

/-- A request at the gateway. A client that does not want a stream takes one item of it. -/
def gateway (w : World) (key : Gateway.ApiKey) (r : Http.Request) : Http.Response × World :=
  let (response, fleet) := Gateway.handle w.fleet w.agents key r
  let after := { w with fleet }
  (response, match fleet.asked.drop w.fleet.asked.length with
    | [⟨target, .chat r⟩] => if r.stream then after else after.letGo target 1
    | _ => after)

/-- A request at the control surface. -/
def rpc (w : World) (r : Http.Request) : Http.Response × World :=
  let (response, fleet) := Rpc.handle w.fleet w.agents w.now r
  (response, { w with fleet })

/-- So many callers ask for the node's client at the same time: each waits for the one before, and
dials only if that has failed. -/
def clientsFor (w : World) (n : Node) : Nat → List (Except AgentFault Unit) × World
  | 0 => ([], w)
  | count + 1 =>
    let (result, fleet) := w.fleet.clientFor w.agents n
    let (results, w) := { w with fleet }.clientsFor n count
    (result.map (fun _ => ()) :: results, w)

/-- The ids of the jobs that so many waiting consumers get from the queue as it is. -/
def consume (q : Queue) : Nat → List String × Queue
  | 0 => ([], q)
  | count + 1 =>
    match q.dequeue with
    | (some job, q) =>
      let (ids, q) := consume q count
      (job.id :: ids, q)
    | (none, q) => ([], q)

/-- So many consumers wait for jobs while `jobs` are enqueued; refusals do not matter. The ids
taken, and how many consumers are left. -/
def consumers (w : World) (count : Nat) (jobs : List Job) : List String × Nat × World :=
  let (early, queue) := consume w.fleet.queue count
  let queue := jobs.foldl (fun q j => (q.enqueue w.now j).2) queue
  let (late, queue) := consume queue (count - early.length)
  let taken := early ++ late
  (taken, count - taken.length, { w with fleet := { w.fleet with queue } })

end World

end InferenceFleet.Rehearsal
