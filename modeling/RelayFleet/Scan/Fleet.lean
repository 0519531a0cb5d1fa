import RelayFleet.Management
import RelayFleet.Scan.Zone

/-!
# Scanning the fleet

The scan handler whose pools are the enabled zones. A zone is ready when it can boot a relay, needs
one at all, and none of its relays is starting or stopping.
-/

namespace RelayFleet

/-- What a pass over the fleet goes by. -/
structure FleetSnapshot where
  directory : ZoneDirectory
  capacities : List ZoneCapacity
deriving Repr, DecidableEq, Inhabited

namespace FleetSnapshot

/-- The capacity of a zone, which has none if it has no relays. -/
def capacity (s : FleetSnapshot) (zone : ZoneId) : ZoneCapacity :=
  (s.capacities.find? (·.zoneId == zone)).getD (.empty zone)

/-- What the directory knows about a zone. -/
def zone? (s : FleetSnapshot) (zone : ZoneId) : Option ZoneSettings :=
  s.directory.zones.find? (·.id == zone)

/-- The zones that are enabled, in the order of the directory. -/
def pools (s : FleetSnapshot) : List ZoneId := (s.directory.zones.filter (·.enabled)).map (·.id)

/-- Whether a zone may be decided about. -/
def isReady (s : FleetSnapshot) (zone : ZoneId) : Bool :=
  match s.zone? zone with
  | none => false
  | some z =>
    z.hostsUp ≠ 0 && z.bootImageReady && z.primaryStorageReady && z.relayRequired &&
      (s.capacity zone).transitionalCount = 0

end FleetSnapshot

namespace ScanRules

open Fleet

/-- Reads the directory and the rows of all relays. -/
def snapshot : StoreM FleetSnapshot := do
  let directory ← directory
  let relays ← Management.query (.listRelays fun _ => true)
  return ⟨directory, zoneCapacities relays⟩

/-- Whether a pass may act: after a tick the mode is `auto`, and storage is up. -/
def admits (s : FleetSnapshot) : Fleet Bool := do
  match ← Management.tick.run with
  | .ok .auto => return s.directory.storageUp
  | _ => return false

/-- The handler of the fleet. -/
def handler (rules : ScanRules) : ScanHandler Fleet FleetSnapshot ZoneId where
  name := "relay-capacity"
  poolName := id
  snapshot := do return (← snapshot.run).mapError fun e => [e.message]
  admits := admits
  pools s := pure s.pools
  isReady s zone := pure (s.isReady zone)
  decide s zone := pure (rules.decision (s.capacity zone))
  expand zone := do return (← rules.expand zone).mapError ExpandError.chain
  shrink zone := do return (← shrink zone).mapError ExpandError.chain
  finish _ := pure ()

/-- Runs a pass over the fleet. -/
def runPass (rules : ScanRules) : Fleet PassReport := rules.handler.runPass

end ScanRules

end RelayFleet
