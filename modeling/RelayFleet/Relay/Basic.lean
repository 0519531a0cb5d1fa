import RelayFleet.Json.Record
import RelayFleet.Relay.State

/-!
# Relays

The row that the registry keeps for each relay, and its form in JSON.
-/

namespace RelayFleet

/-- The name of a relay. -/
abbrev RelayId := String

/-- The name of a zone. -/
abbrev ZoneId := String

/-- The name of a workload. -/
abbrev WorkloadId := String

/-- A time in milliseconds since the epoch. -/
abbrev Millis := UInt64

/-- A relay as the registry knows it. -/
structure Relay where
  id : RelayId
  zoneId : ZoneId
  state : RelayState
  /-- The state held when the current migration began. -/
  preMigrationState : Option RelayState
  /-- The session count that the relay reported last. -/
  activeSessions : UInt32
  /-- The text of the last usable status report. -/
  statusPayload : Option String
  statusReceivedAt : Option Millis
  publicAddress : Option String
  port : UInt16
  tlsEnabled : Bool
  /-- When a workload was last assigned to this relay. -/
  lastAssignedAt : Option Millis
  createdAt : Millis
  updatedAt : Millis
deriving Repr, DecidableEq, Inhabited

namespace Relay

/-- A relay that was provisioned just now and not started yet. -/
def fresh (now : Millis) (id : RelayId) (zone : ZoneId) (address : Option String) (port : UInt16) :
    Relay where
  id := id
  zoneId := zone
  state := .stopped
  preMigrationState := none
  activeSessions := 0
  statusPayload := none
  statusReceivedAt := none
  publicAddress := address
  port := port
  tlsEnabled := false
  lastAssignedAt := none
  createdAt := now
  updatedAt := now

open Json Json.Decoder Json.Record

/-- A relay in JSON. -/
def encode (r : Relay) : Value :=
  .object [
    ("id", .string r.id),
    ("zone_id", .string r.zoneId),
    ("state", r.state.encode),
    ("pre_migration_state", (r.preMigrationState.map RelayState.encode).getD .null),
    ("active_sessions", .natural r.activeSessions.toNat),
    ("status_payload", .ofString? r.statusPayload),
    ("status_received_at", .ofNatural? (r.statusReceivedAt.map UInt64.toNat)),
    ("public_address", .ofString? r.publicAddress),
    ("port", .natural r.port.toNat),
    ("tls_enabled", .bool r.tlsEnabled),
    ("last_assigned_at", .ofNatural? (r.lastAssignedAt.map UInt64.toNat)),
    ("created_at", .natural r.createdAt.toNat),
    ("updated_at", .natural r.updatedAt.toNat)]

/-- The fields of a relay in JSON. -/
def record : Record Relay :=
  Relay.mk <$> required "id" string <*> required "zone_id" string
    <*> required "state" RelayState.decoder
    <*> nullable "pre_migration_state" RelayState.decoder
    <*> required "active_sessions" uint32 <*> nullable "status_payload" string
    <*> nullable "status_received_at" uint64 <*> nullable "public_address" string
    <*> required "port" uint16 <*> required "tls_enabled" bool
    <*> nullable "last_assigned_at" uint64 <*> required "created_at" uint64
    <*> required "updated_at" uint64

/-- A relay from JSON. -/
def decoder : Decoder Relay := record.decoder

end Relay

end RelayFleet
