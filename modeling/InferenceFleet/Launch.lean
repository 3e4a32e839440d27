import InferenceFleet.Control
import InferenceFleet.Gateway.ApiKey
import InferenceFleet.Settings.Basic

/-!
# From settings to a control plane

What the settings are turned into when a control plane is put together and its tasks in the
background are started. Two parts refuse a value that they cannot work with: permits are counted up
to `Processor.unlimitedPermits`, and a clock needs a time between two ticks.
-/

namespace InferenceFleet

/-- Why a control plane cannot be started. -/
inductive LaunchFault where
  | tooManyPermits (permits : Nat)
  /-- There is no time between two sweeps. -/
  | zeroPeriod
  deriving DecidableEq

/-- A processor with so many permits, none of which is taken. -/
def Processor.ofPermits (permits : Nat) : Except LaunchFault Processor :=
  if permits ≤ unlimitedPermits then .ok { free := permits } else .error (.tooManyPermits permits)

/-- The task that removes silent nodes. Both times are in nanoseconds. -/
structure Monitor where
  /-- How long a node may be silent. -/
  timeout : Nat
  /-- The time from one sweep to the next. -/
  sweepInterval : Nat
  deriving DecidableEq

namespace Monitor

def ofSettings (h : HeartbeatSettings) : Monitor where
  timeout := h.timeoutSecs.toNat * 1000000000
  sweepInterval := max h.sweepIntervalSecs.toNat 1 * 1000000000

/-- The monitor with its clock started. -/
def start (m : Monitor) : Except LaunchFault Monitor :=
  if m.sweepInterval = 0 then .error .zeroPeriod else .ok m

/-- Sweeps once. -/
def sweep (m : Monitor) (f : Fleet) (now : Instant) : List String × Fleet := f.sweep now m.timeout

end Monitor

/-- A fleet with what surrounds it. -/
structure ControlPlane where
  fleet : Fleet
  key : Gateway.ApiKey
  /-- How long the loop waits for a job before it looks for a shutdown, in nanoseconds. -/
  pollInterval : Nat
  monitor : Monitor

namespace Settings

/-- Puts a control plane together and starts its tasks. -/
def launch (s : Settings) : Except LaunchFault ControlPlane := do
  let processor ← Processor.ofPermits (Processor.permits s.processor.maxConcurrentJobs.toNat)
  let monitor ← (Monitor.ofSettings s.heartbeat).start
  return {
    fleet := { processor }
    key := .ofSetting s.auth.apiKey
    pollInterval := max s.processor.pollIntervalMs.toNat 1 * 1000000
    monitor }

end Settings

end InferenceFleet
