import RelayFleet.Relay.Basic

/-!
# The capacity of a zone

A `ZoneCapacity` counts the relays of a zone by what they are good for. It is derived from the rows
of the registry: `ZoneCapacity.ofRelays` counts the relays of one zone, `zoneCapacities` those of
every zone that has any, in one pass over the rows.
-/

namespace RelayFleet

open Json Json.Decoder Json.Record

/-- The relays of a zone, counted. -/
structure ZoneCapacity where
  zoneId : ZoneId
  runningCount : UInt32
  /-- The sessions of the running relays. -/
  activeSessions : UInt64
  /-- Relays that are starting or stopping. -/
  transitionalCount : UInt32
  stoppedCount : UInt32
  /-- Every relay that is not destroyed. -/
  totalCount : UInt32
deriving Repr, DecidableEq, Inhabited

namespace ZoneCapacity

/-- The capacity of a zone without relays. -/
def empty (zone : ZoneId) : ZoneCapacity := ⟨zone, 0, 0, 0, 0, 0⟩

/-- Counts one relay. -/
def add (c : ZoneCapacity) (r : Relay) : ZoneCapacity :=
  let counted : ZoneCapacity :=
    if r.state = .running then
      { c with
        runningCount := c.runningCount + 1
        activeSessions := c.activeSessions + r.activeSessions.toUInt64 }
    else if r.state = .stopped then { c with stoppedCount := c.stoppedCount + 1 }
    else if r.state.isTransitional then { c with transitionalCount := c.transitionalCount + 1 }
    else c
  if r.state.isTerminal then counted else { counted with totalCount := c.totalCount + 1 }

/-- Counts relays, which are all taken to be in `zone`. -/
def ofRelays (zone : ZoneId) (relays : List Relay) : ZoneCapacity := relays.foldl add (empty zone)

/-- A capacity in JSON. -/
def encode (c : ZoneCapacity) : Value :=
  .object [
    ("zone_id", .string c.zoneId),
    ("running_count", .natural c.runningCount.toNat),
    ("active_sessions", .natural c.activeSessions.toNat),
    ("transitional_count", .natural c.transitionalCount.toNat),
    ("stopped_count", .natural c.stoppedCount.toNat),
    ("total_count", .natural c.totalCount.toNat)]

/-- The fields of a capacity in JSON. -/
def record : Record ZoneCapacity :=
  ZoneCapacity.mk <$> required "zone_id" string <*> required "running_count" uint32
    <*> required "active_sessions" uint64 <*> required "transitional_count" uint32
    <*> required "stopped_count" uint32 <*> required "total_count" uint32

/-- A capacity from JSON. -/
def decoder : Decoder ZoneCapacity := record.decoder

end ZoneCapacity

/-- Counts one relay in the capacities of its zone, which come into being with its first relay. -/
def countRelay (zones : List ZoneCapacity) (r : Relay) : List ZoneCapacity :=
  match zones with
  | [] => [(ZoneCapacity.empty r.zoneId).add r]
  | c :: rest => if c.zoneId = r.zoneId then c.add r :: rest else c :: countRelay rest r

/-- The capacity of every zone that has a relay, in the order of their first relays. -/
def zoneCapacities (relays : List Relay) : List ZoneCapacity := relays.foldl countRelay []

end RelayFleet
