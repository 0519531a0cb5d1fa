import RelayFleet.Lifecycle
import RelayFleet.Scan.Cycle

/-!
# Bringing a zone a relay

A zone should have some sessions to spare. Where it has too few, one relay is brought online under
the allocation lock: one from the stopped pool if there is any, otherwise a new one. A relay of the
pool that cannot boot is destroyed. Capacity is never taken away. `ScanRules.expand` announces every
failure to bring a relay online that was needed.
-/

namespace RelayFleet

/-- What to do with a zone of this capacity: it is expanded when its running relays have no more
than `standby` sessions to spare. -/
def capacityDecision (c : ZoneCapacity) (capacityPerInstance standby : UInt32) : ScanAction :=
  let spare := c.runningCount.toNat * capacityPerInstance.toNat - c.activeSessions.toNat
  if spare ≤ standby.toNat then .expand else .noOp

/-- How zones are scanned. -/
structure ScanRules where
  lockTimeout : Duration
  capacityPerInstance : UInt32
  standbyThreshold : UInt32
  launchMaxPerZone : UInt32
  launch : LaunchSpec
deriving Repr, DecidableEq, Inhabited

/-- Why a zone could not be expanded. -/
inductive ExpandError where
  | store (e : StoreError)
  /-- A relay of the stopped pool did not boot. -/
  | restarting (id : RelayId) (zone : ZoneId) (e : LifecycleError)
  /-- There was no new relay to be had. -/
  | provisioning (zone : ZoneId) (e : LifecycleError)
  /-- A new relay did not boot. -/
  | starting (id : RelayId) (zone : ZoneId) (e : LifecycleError)
deriving Repr, DecidableEq, Inhabited

/-- The texts of an expansion that failed and of what made it fail. -/
def ExpandError.chain : ExpandError → ErrorChain
  | store e => [e.message]
  | restarting id zone e => ("restarting relay " ++ id ++ " in zone " ++ zone) :: e.chain
  | provisioning zone e => ("provisioning relay in zone " ++ zone) :: e.chain
  | starting id zone e => ("starting new relay " ++ id ++ " in zone " ++ zone) :: e.chain

namespace ScanRules

open Fleet ExpandError

/-- The rules of settings. -/
def ofSettings (s : Settings) : ScanRules where
  lockTimeout := .ofSecs s.fleet.allocationLockTimeoutSecs.toNat
  capacityPerInstance := s.fleet.capacityPerInstance
  standbyThreshold := s.fleet.standbyThreshold
  launchMaxPerZone := s.fleet.launchMaxPerZone
  launch := ⟨s.fleet.relayTemplate, s.fleet.relayOffering, s.endpoint.tlsEnabled⟩

/-- What to do with a zone of this capacity. -/
def decision (rules : ScanRules) (c : ZoneCapacity) : ScanAction :=
  capacityDecision c rules.capacityPerInstance rules.standbyThreshold

/-- Announces that a zone got no relay. -/
def announceFailure (zone : ZoneId) (id : Option RelayId) (reason : String) : Fleet Unit :=
  emit ⟨.createFailure, zone, id, "no relay brought online: " ++ reason⟩

/-- Boots a relay of the stopped pool, and destroys it if it does not boot. -/
def restart (zone : ZoneId) (id : RelayId) : ExceptT ExpandError Fleet StageOutcome := do
  match ← (Lifecycle.start id).run with
  | .ok _ => return .applied
  | .error e =>
    announceFailure zone (some id) e.message
    let _ ← (Lifecycle.destroy id).run
    throw (.restarting id zone e)

/-- Provisions a new relay and boots it. -/
def launchNew (rules : ScanRules) (zone : ZoneId) : ExceptT ExpandError Fleet StageOutcome := do
  match ← (Lifecycle.create zone rules.launch).run with
  | .error e => throw (.provisioning zone e)
  | .ok r =>
    match ← (Lifecycle.start r.id).run with
    | .ok _ => return .applied
    | .error e =>
      announceFailure zone (some r.id) e.message
      throw (.starting r.id zone e)

/-- Expands a zone while the lock is held. The need is checked again, because the snapshot may be
older than another expansion. -/
def expandLocked (rules : ScanRules) (zone : ZoneId) : ExceptT ExpandError Fleet StageOutcome := do
  let relays ← attempt store (.listRelays (·.zoneId == zone))
  let current := ZoneCapacity.ofRelays zone relays
  if current.transitionalCount > 0 ∨ rules.decision current ≠ .expand then return .skipped
  else
    let stopped ← attempt store (.listRelays fun r => r.state = .stopped && r.zoneId == zone)
    match stopped with
    | r :: _ => restart zone r.id
    | [] =>
      if rules.launchMaxPerZone ≤ current.totalCount then
        announceFailure zone none ("zone at launch limit of "
          ++ toString rules.launchMaxPerZone.toNat ++ " relays")
        return .skipped
      else rules.launchNew zone

/-- Brings a zone one relay online, if it still needs one. -/
def expand (rules : ScanRules) (zone : ZoneId) : Fleet (Except ExpandError StageOutcome) :=
  withLock rules.lockTimeout
    (fun e => do
      announceFailure zone none e.message
      return .ok .deferred)
    (rules.expandLocked zone).run

/-- Takes a relay from a zone: idle relays are kept, so nothing is done. -/
def shrink (_ : ZoneId) : Fleet (Except ExpandError StageOutcome) := pure (.ok .skipped)

end ScanRules

end RelayFleet
