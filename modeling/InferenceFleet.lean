import InferenceFleet.Agent.Client
import InferenceFleet.Json.Settled
import InferenceFleet.Proofs.EventStream.RoundTrip
import InferenceFleet.Proofs.Fleet.Placement
import InferenceFleet.Rehearsal.World
import InferenceFleet.Settings.Sources
import InferenceFleet.Proofs.Fleet.Sections
import InferenceFleet.Proofs.Fleet.ClientTargets
import InferenceFleet.Proofs.Fleet.Paths
import InferenceFleet.Proofs.Fleet.Caching
import InferenceFleet.Proofs.Fleet.Accounts
import InferenceFleet.Proofs.Fleet.Outcomes
import InferenceFleet.Proofs.Fleet.Sweeping
import InferenceFleet.Proofs.Messages
import InferenceFleet.Proofs.Queue.Delivery
import InferenceFleet.Proofs.Surfaces.Refusals
import InferenceFleet.Proofs.Fleet.StartOrder
import InferenceFleet.Proofs.Surfaces.Served
import InferenceFleet.Proofs.Surfaces.Key
import InferenceFleet.Proofs.Relay.Schedules
import InferenceFleet.Proofs.EventStream.LineEnds
import InferenceFleet.Proofs.EventStream.Reports
import InferenceFleet.Proofs.Settings.Secret
import InferenceFleet.Proofs.Surfaces.Bodies
import InferenceFleet.Proofs.Fleet.Shutdown
import InferenceFleet.Proofs.Clients.SingleDial
import InferenceFleet.Proofs.PassedOn
import InferenceFleet.Proofs.Fleet.Selection
import InferenceFleet.Proofs.Completion
import InferenceFleet.Proofs.Agent.TrailingSlashes
import InferenceFleet.Proofs.Settings.Precedence
import InferenceFleet.Proofs.Settings.Launch
import InferenceFleet.Proofs.Queue.WakeUps
