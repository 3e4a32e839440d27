import InferenceFleet.Json.Shape

/-!
# Settings

What an operator can set, section by section, with the values that hold when nothing is set. The
intervals of the tasks in the background must not be zero.
-/

namespace InferenceFleet

open Json

/-- Where a surface listens. -/
structure Listener where
  host : String := "0.0.0.0"
  port : UInt16 := 8080
  deriving DecidableEq

namespace Listener

/-- The listener of the control surface, unless it is set. -/
def forControl : Listener := { port := 50051 }

def address (l : Listener) : String := l.host ++ ":" ++ decimal l.port.toNat

def shape : Shape Listener :=
  .record "ListenConfig"
    (.defaulted "host" .text "0.0.0.0" <| .defaulted "port" (.integer .u16) 8080 .nil)
    (fun (host, port, _) => { host, port }) (fun l => (l.host, l.port, ()))

end Listener

structure HeartbeatSettings where
  timeoutSecs : UInt64 := 30
  sweepIntervalSecs : UInt64 := 10
  deriving DecidableEq

def HeartbeatSettings.shape : Shape HeartbeatSettings :=
  .record "HeartbeatConfig"
    (.defaulted "timeout_secs" (.integer .u64) 30 <|
      .defaulted "sweep_interval_secs" (.integer .u64) 10 .nil)
    (fun (timeoutSecs, sweepIntervalSecs, _) => { timeoutSecs, sweepIntervalSecs })
    (fun h => (h.timeoutSecs, h.sweepIntervalSecs, ()))

structure ProcessorSettings where
  pollIntervalMs : UInt64 := 100
  /-- Zero stands for no limit. -/
  maxConcurrentJobs : UInt64 := 64
  deriving DecidableEq

def ProcessorSettings.shape : Shape ProcessorSettings :=
  .record "ProcessorConfig"
    (.defaulted "poll_interval_ms" (.integer .u64) 100 <|
      .defaulted "max_concurrent_jobs" (.integer .size) 64 .nil)
    (fun (pollIntervalMs, maxConcurrentJobs, _) => { pollIntervalMs, maxConcurrentJobs })
    (fun p => (p.pollIntervalMs, p.maxConcurrentJobs, ()))

structure AuthSettings where
  apiKey : Option String := none
  deriving DecidableEq

def AuthSettings.shape : Shape AuthSettings :=
  .record "AuthConfig" (.nullable "api_key" .text .nil)
    (fun (apiKey, _) => { apiKey }) (fun a => (a.apiKey, ()))

structure LoggingSettings where
  level : String := "info"
  deriving DecidableEq

def LoggingSettings.shape : Shape LoggingSettings :=
  .record "LoggingConfig" (.defaulted "level" .text "info" .nil)
    (fun (level, _) => { level }) (fun l => (l.level, ()))

structure Settings where
  rpc : Listener := .forControl
  http : Listener := {}
  heartbeat : HeartbeatSettings := {}
  processor : ProcessorSettings := {}
  auth : AuthSettings := {}
  logging : LoggingSettings := {}
  deriving DecidableEq

namespace Settings

def shape : Shape Settings :=
  .record "Config"
    (.defaulted "rpc" Listener.shape .forControl <| .defaulted "http" Listener.shape {} <|
      .defaulted "heartbeat" HeartbeatSettings.shape {} <|
      .defaulted "processor" ProcessorSettings.shape {} <|
      .defaulted "auth" AuthSettings.shape {} <|
      .defaulted "logging" LoggingSettings.shape {} .nil)
    (fun (rpc, http, heartbeat, processor, auth, logging, _) =>
      { rpc, http, heartbeat, processor, auth, logging })
    (fun s => (s.rpc, s.http, s.heartbeat, s.processor, s.auth, s.logging, ()))

/-- The intervals, with the keys under which they are set. -/
def intervals (s : Settings) : List (String × UInt64) :=
  [("heartbeat.timeout_secs", s.heartbeat.timeoutSecs),
    ("heartbeat.sweep_interval_secs", s.heartbeat.sweepIntervalSecs),
    ("processor.poll_interval_ms", s.processor.pollIntervalMs)]

/-- The key of the first interval that is zero. -/
def zeroInterval? (s : Settings) : Option String :=
  (s.intervals.find? fun i => i.2 == 0).map (·.1)

/-- What is wrong with an interval of zero. -/
def zeroMessage (key : String) : String := key ++ " must be greater than 0"

end Settings

end InferenceFleet
