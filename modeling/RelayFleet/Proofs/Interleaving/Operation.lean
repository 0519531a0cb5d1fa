import RelayFleet.Allocation.Assign
import RelayFleet.Proofs.Interleaving.Run
import RelayFleet.Report
import RelayFleet.Scan.Fleet

/-!
# The operations of a fleet

Everything that can be asked of a fleet, as data, so that runs of any mixture of calls can be
stated: `Operation.program` is the program of a call, which ends with an `Outcome`.
-/

namespace RelayFleet

/-- A call of a fleet. -/
inductive Operation where
  | create (zone : ZoneId) (spec : LaunchSpec)
  | start (id : RelayId)
  | stop (id : RelayId)
  | destroy (id : RelayId)
  | reboot (id : RelayId)
  | agentDisconnected (id : RelayId)
  | migrationStarted (id : RelayId)
  | migrationCompleted (id : RelayId)
  | assign (rules : AssignRules) (zone : ZoneId) (w : Workload)
  | report (id : RelayId) (text : String)
  | expand (rules : ScanRules) (zone : ZoneId)
  | pass (rules : ScanRules)
  | tick
  | setMode (m : Mode)
  | resumeMode

/-- What a call ends with. -/
inductive Outcome where
  | relay (r : Except LifecycleError Relay)
  | destroyed (r : Except LifecycleError Unit)
  | assigned (r : Except AllocError RelayEndpoint)
  | reported (r : StoreResult ReportOutcome)
  | expanded (r : Except ExpandError StageOutcome)
  | passed (r : PassReport)
  | ticked (r : StoreResult Mode)
  | mode (r : StoreResult ModeRecord)

namespace Operation

/-- The program of a call. -/
def program : Operation → Fleet Outcome
  | create zone spec => .relay <$> (Lifecycle.create zone spec).run
  | start id => .relay <$> (Lifecycle.start id).run
  | stop id => .relay <$> (Lifecycle.stop id).run
  | destroy id => .destroyed <$> (Lifecycle.destroy id).run
  | reboot id => .relay <$> (Lifecycle.reboot id).run
  | agentDisconnected id => .relay <$> (Lifecycle.agentDisconnected id).run
  | migrationStarted id => .relay <$> (Lifecycle.migrationStarted id).run
  | migrationCompleted id => .relay <$> (Lifecycle.migrationCompleted id).run
  | assign rules zone w => .assigned <$> rules.assign zone w
  | report id text => .reported <$> applyReport id text
  | expand rules zone => .expanded <$> rules.expand zone
  | pass rules => .passed <$> rules.runPass
  | tick => .ticked <$> Management.tick.run
  | setMode m => .mode <$> (Management.set m).run
  | resumeMode => .mode <$> Management.resume.run

end Operation

end RelayFleet
