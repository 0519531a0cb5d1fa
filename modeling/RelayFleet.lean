import RelayFleet.Allocation.Assign
import RelayFleet.Allocation.Endpoint
import RelayFleet.Allocation.Error
import RelayFleet.Allocation.Outcome
import RelayFleet.Allocation.Policy
import RelayFleet.Allocation.Sticky
import RelayFleet.Api
import RelayFleet.Capacity
import RelayFleet.Decimal
import RelayFleet.Duration
import RelayFleet.Event.Basic
import RelayFleet.Event.Bus
import RelayFleet.Fleet.Action
import RelayFleet.Http.MediaType
import RelayFleet.Http.Message
import RelayFleet.Http.Path
import RelayFleet.Http.Route
import RelayFleet.Json.Bytes
import RelayFleet.Json.Decoder
import RelayFleet.Json.Reader
import RelayFleet.Json.Record
import RelayFleet.Json.Token
import RelayFleet.Json.Value
import RelayFleet.Lifecycle
import RelayFleet.Lock
import RelayFleet.Management
import RelayFleet.Metrics
import RelayFleet.Mode
import RelayFleet.Program
import RelayFleet.Proofs.Allocation.Actions
import RelayFleet.Proofs.Allocation.Backing
import RelayFleet.Proofs.Allocation.Choice
import RelayFleet.Proofs.Allocation.Isolation
import RelayFleet.Proofs.Allocation.Refusal
import RelayFleet.Proofs.Allocation.Serializable
import RelayFleet.Proofs.Allocation.StaleBinding
import RelayFleet.Proofs.Allocation.Staying
import RelayFleet.Proofs.Allocation.Undisturbed
import RelayFleet.Proofs.Event.Chronicle
import RelayFleet.Proofs.Event.Ledger
import RelayFleet.Proofs.Http.Call
import RelayFleet.Proofs.Http.FrontEnd
import RelayFleet.Proofs.Http.Routes
import RelayFleet.Proofs.Interleaving.Alone
import RelayFleet.Proofs.Interleaving.Asks
import RelayFleet.Proofs.Interleaving.Calls
import RelayFleet.Proofs.Interleaving.Composition
import RelayFleet.Proofs.Interleaving.Counted
import RelayFleet.Proofs.Interleaving.Coupled
import RelayFleet.Proofs.Interleaving.Operation
import RelayFleet.Proofs.Interleaving.Protocol
import RelayFleet.Proofs.Interleaving.Run
import RelayFleet.Proofs.Interleaving.Serial
import RelayFleet.Proofs.Interleaving.Since
import RelayFleet.Proofs.Json.Presentation
import RelayFleet.Proofs.Json.Record
import RelayFleet.Proofs.Json.RoundTrip
import RelayFleet.Proofs.Lifecycle.Agreement
import RelayFleet.Proofs.Lifecycle.Asks
import RelayFleet.Proofs.Lifecycle.Boot
import RelayFleet.Proofs.Lifecycle.Conduct
import RelayFleet.Proofs.Lifecycle.Custody
import RelayFleet.Proofs.Lifecycle.Destruction
import RelayFleet.Proofs.Lifecycle.Effect
import RelayFleet.Proofs.Lifecycle.Errand
import RelayFleet.Proofs.Lifecycle.Follows
import RelayFleet.Proofs.Lifecycle.Migration
import RelayFleet.Proofs.Lifecycle.Rollback
import RelayFleet.Proofs.Lifecycle.Stranded
import RelayFleet.Proofs.Lifecycle.Undisturbed
import RelayFleet.Proofs.Lock.Contest
import RelayFleet.Proofs.Lock.Fairness
import RelayFleet.Proofs.Lock.Line
import RelayFleet.Proofs.Management.Drain
import RelayFleet.Proofs.Management.Override
import RelayFleet.Proofs.Management.Tick
import RelayFleet.Proofs.Metrics.Exposition
import RelayFleet.Proofs.Metrics.ReadBack
import RelayFleet.Proofs.Provisioner.Addresses
import RelayFleet.Proofs.Provisioner.Ipv4
import RelayFleet.Proofs.Registry.Codec
import RelayFleet.Proofs.Registry.Count
import RelayFleet.Proofs.Registry.Creation
import RelayFleet.Proofs.Registry.Ids
import RelayFleet.Proofs.Registry.Issuance
import RelayFleet.Proofs.Registry.Keyed
import RelayFleet.Proofs.Registry.Order
import RelayFleet.Proofs.Registry.Persistence
import RelayFleet.Proofs.Registry.Release
import RelayFleet.Proofs.Registry.Removal
import RelayFleet.Proofs.Registry.Reuse
import RelayFleet.Proofs.Registry.Rows
import RelayFleet.Proofs.Registry.Zones
import RelayFleet.Proofs.Report.Extended
import RelayFleet.Proofs.Report.Filing
import RelayFleet.Proofs.Scan.Account
import RelayFleet.Proofs.Scan.Additive
import RelayFleet.Proofs.Scan.Aggregate
import RelayFleet.Proofs.Scan.Alerts
import RelayFleet.Proofs.Scan.Conduct
import RelayFleet.Proofs.Scan.Expansion
import RelayFleet.Proofs.Scan.Fixpoint
import RelayFleet.Proofs.Scan.LaunchLimit
import RelayFleet.Proofs.Scan.Operations
import RelayFleet.Proofs.Scan.Pass
import RelayFleet.Proofs.Scan.Provisioning
import RelayFleet.Proofs.Scan.Replacement
import RelayFleet.Proofs.Scan.Spare
import RelayFleet.Proofs.Scan.Timetable
import RelayFleet.Proofs.Settings.RoundTrip
import RelayFleet.Proofs.Toml.Bounded
import RelayFleet.Proofs.Toml.Document
import RelayFleet.Proofs.Toml.Number
import RelayFleet.Proofs.Toml.Quoted
import RelayFleet.Provisioner.Call
import RelayFleet.Provisioner.Local
import RelayFleet.Registry.Basic
import RelayFleet.Registry.Table
import RelayFleet.Registry.Transaction
import RelayFleet.Relay.Basic
import RelayFleet.Relay.State
import RelayFleet.Relay.Transition
import RelayFleet.Report
import RelayFleet.Scan.Cycle
import RelayFleet.Scan.Fleet
import RelayFleet.Scan.Loop
import RelayFleet.Scan.Zone
import RelayFleet.Settings.Basic
import RelayFleet.Settings.Toml
import RelayFleet.Simulation.Job
import RelayFleet.Simulation.Script
import RelayFleet.Simulation.World
import RelayFleet.StatusReport
import RelayFleet.Text.Blank
import RelayFleet.Toml.Number
import RelayFleet.Toml.Printer
import RelayFleet.Toml.Quoted
import RelayFleet.Toml.Reader
import RelayFleet.Toml.Table
import RelayFleet.Toml.Value
import RelayFleet.Workload
import RelayFleet.Zone.Directory
