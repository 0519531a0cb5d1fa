import RelayFleet.Json.Record
import RelayFleet.Relay.Basic
import RelayFleet.Text.Blank

/-!
# Settings of a fleet

The tuning of the control loops, how clients reach a relay, and the zones. Every setting has a
default but the name of a zone. `Settings.validate` refuses settings that cannot work and switches
TLS off where no domain is given for it.
-/

namespace RelayFleet

open Json Json.Decoder Json.Record

/-- How a relay is chosen among those with room. -/
inductive PolicyKind where
  /-- The first relay in the order of the registry. -/
  | firstFit
  /-- The relay with the fewest sessions. -/
  | leastLoaded
deriving Repr, DecidableEq, Inhabited

namespace PolicyKind

/-- Every policy. -/
def all : List PolicyKind := [firstFit, leastLoaded]

/-- The name of a policy. -/
def name : PolicyKind → String
  | firstFit => "first-fit"
  | leastLoaded => "least-loaded"

/-- A policy in JSON. -/
def encode (p : PolicyKind) : Value := .string p.name

/-- A policy by its name. -/
def decoder (empty : Value → Bool) : Decoder PolicyKind :=
  Decoder.word (all.map fun p => (p.name, p)) empty

end PolicyKind

/-- Capacity and control loops. -/
structure FleetSettings where
  /-- How many sessions a relay takes; a session that comes back may exceed it. -/
  capacityPerInstance : UInt32
  /-- How many free sessions each zone keeps ready. -/
  standbyThreshold : UInt32
  scanIntervalMs : UInt64
  initialScanDelayMs : UInt64
  allocationLockTimeoutSecs : UInt64
  sessionStickyTimeoutMs : UInt64
  /-- How many relays that are not destroyed a zone may have. -/
  launchMaxPerZone : UInt32
  allocationPolicy : PolicyKind
  relayTemplate : String
  relayOffering : String
deriving Repr, DecidableEq, Inhabited

namespace FleetSettings

/-- The defaults. -/
def default : FleetSettings where
  capacityPerInstance := 50
  standbyThreshold := 10
  scanIntervalMs := 30000
  initialScanDelayMs := 60000
  allocationLockTimeoutSecs := 180
  sessionStickyTimeoutMs := 300000
  launchMaxPerZone := 10
  allocationPolicy := .firstFit
  relayTemplate := "relay-system-template"
  relayOffering := "relay-system-offering"

/-- The settings in JSON. -/
def encode (s : FleetSettings) : Value :=
  .object [
    ("capacity_per_instance", .natural s.capacityPerInstance.toNat),
    ("standby_threshold", .natural s.standbyThreshold.toNat),
    ("scan_interval_ms", .natural s.scanIntervalMs.toNat),
    ("initial_scan_delay_ms", .natural s.initialScanDelayMs.toNat),
    ("allocation_lock_timeout_secs", .natural s.allocationLockTimeoutSecs.toNat),
    ("session_sticky_timeout_ms", .natural s.sessionStickyTimeoutMs.toNat),
    ("launch_max_per_zone", .natural s.launchMaxPerZone.toNat),
    ("allocation_policy", s.allocationPolicy.encode),
    ("relay_template", .string s.relayTemplate),
    ("relay_offering", .string s.relayOffering)]

/-- The fields of the settings; `empty` is the payload of a word without one. -/
def record (empty : Value → Bool) : Record FleetSettings :=
  FleetSettings.mk
    <$> defaulted "capacity_per_instance" uint32 default.capacityPerInstance
    <*> defaulted "standby_threshold" uint32 default.standbyThreshold
    <*> defaulted "scan_interval_ms" uint64 default.scanIntervalMs
    <*> defaulted "initial_scan_delay_ms" uint64 default.initialScanDelayMs
    <*> defaulted "allocation_lock_timeout_secs" uint64 default.allocationLockTimeoutSecs
    <*> defaulted "session_sticky_timeout_ms" uint64 default.sessionStickyTimeoutMs
    <*> defaulted "launch_max_per_zone" uint32 default.launchMaxPerZone
    <*> defaulted "allocation_policy" (PolicyKind.decoder empty) default.allocationPolicy
    <*> defaulted "relay_template" string default.relayTemplate
    <*> defaulted "relay_offering" string default.relayOffering

/-- The settings from JSON. -/
def decoder (empty : Value → Bool) : Decoder FleetSettings := (record empty).decoder

end FleetSettings

/-- How relays are presented to clients. -/
structure EndpointSettings where
  tlsEnabled : Bool
  urlDomain : Option String
  /-- The port on which a relay listens for remote displays. -/
  consolePort : UInt16
  /-- A fixed address in front of every relay. -/
  staticPublicAddress : Option String
  staticPort : UInt16
deriving Repr, DecidableEq, Inhabited

namespace EndpointSettings

/-- The defaults. -/
def default : EndpointSettings where
  tlsEnabled := false
  urlDomain := none
  consolePort := 8080
  staticPublicAddress := none
  staticPort := 8443

/-- The settings in JSON. -/
def encode (s : EndpointSettings) : Value :=
  .object [
    ("tls_enabled", .bool s.tlsEnabled),
    ("url_domain", .ofString? s.urlDomain),
    ("console_port", .natural s.consolePort.toNat),
    ("static_public_address", .ofString? s.staticPublicAddress),
    ("static_port", .natural s.staticPort.toNat)]

/-- The fields of the settings. -/
def record : Record EndpointSettings :=
  EndpointSettings.mk
    <$> defaulted "tls_enabled" bool default.tlsEnabled
    <*> defaulted "url_domain" string.optional default.urlDomain
    <*> defaulted "console_port" uint16 default.consolePort
    <*> defaulted "static_public_address" string.optional default.staticPublicAddress
    <*> defaulted "static_port" uint16 default.staticPort

/-- The settings from JSON. -/
def decoder : Decoder EndpointSettings := record.decoder

/-- Whether a domain is given that is not blank. -/
def hasDomain (s : EndpointSettings) : Bool :=
  match s.urlDomain with
  | some domain => !Text.isBlank domain
  | none => false

end EndpointSettings

/-- A zone as the settings describe it. -/
structure ZoneSettings where
  id : ZoneId
  enabled : Bool
  relayRequired : Bool
  hostsUp : UInt32
  bootImageReady : Bool
  primaryStorageReady : Bool
deriving Repr, DecidableEq, Inhabited

namespace ZoneSettings

/-- A zone in JSON. -/
def encode (z : ZoneSettings) : Value :=
  .object [
    ("id", .string z.id),
    ("enabled", .bool z.enabled),
    ("relay_required", .bool z.relayRequired),
    ("hosts_up", .natural z.hostsUp.toNat),
    ("boot_image_ready", .bool z.bootImageReady),
    ("primary_storage_ready", .bool z.primaryStorageReady)]

/-- The fields of a zone. -/
def record : Record ZoneSettings :=
  ZoneSettings.mk <$> required "id" string <*> defaulted "enabled" bool true
    <*> defaulted "relay_required" bool true <*> defaulted "hosts_up" uint32 1
    <*> defaulted "boot_image_ready" bool true <*> defaulted "primary_storage_ready" bool true

/-- A zone from JSON. -/
def decoder : Decoder ZoneSettings := record.decoder

end ZoneSettings

/-- The settings of a fleet. -/
structure Settings where
  fleet : FleetSettings
  endpoint : EndpointSettings
  zones : List ZoneSettings
deriving Repr, DecidableEq, Inhabited

/-- Why settings were refused. -/
inductive SettingsError where
  | zeroCapacity
  | zeroScanInterval
  | duplicateZone (id : ZoneId)
deriving Repr, DecidableEq, Inhabited

/-- The text of refused settings. -/
def SettingsError.message : SettingsError → String
  | zeroCapacity => "fleet.capacity_per_instance must be greater than zero"
  | zeroScanInterval => "fleet.scan_interval_ms must be greater than zero"
  | duplicateZone id => "zone " ++ id ++ " is declared more than once"

namespace Settings

/-- The defaults, without zones. -/
def default : Settings := ⟨.default, .default, []⟩

/-- The settings in JSON. -/
def encode (s : Settings) : Value :=
  .object [
    ("fleet", s.fleet.encode),
    ("endpoint", s.endpoint.encode),
    ("zones", .array (s.zones.map ZoneSettings.encode))]

/-- The fields of the settings. -/
def record (empty : Value → Bool) : Record Settings :=
  Settings.mk
    <$> defaulted "fleet" (FleetSettings.decoder empty) FleetSettings.default
    <*> defaulted "endpoint" EndpointSettings.decoder EndpointSettings.default
    <*> defaulted "zones" (list ZoneSettings.decoder) []

/-- The settings from JSON. -/
def decoder (empty : Value → Bool) : Decoder Settings := (record empty).decoder

/-- The first name in a list that also stands before it. -/
def firstRepeated? (seen : List ZoneId) : List ZoneId → Option ZoneId
  | [] => none
  | id :: rest => if seen.contains id then some id else firstRepeated? (id :: seen) rest

/-- Refuses unusable settings; TLS stays on only where a domain is given. -/
def validate (s : Settings) : Except SettingsError Settings :=
  if s.fleet.capacityPerInstance = 0 then .error .zeroCapacity
  else if s.fleet.scanIntervalMs = 0 then .error .zeroScanInterval
  else match firstRepeated? [] (s.zones.map (·.id)) with
    | some id => .error (.duplicateZone id)
    | none =>
      .ok { s with endpoint.tlsEnabled := s.endpoint.tlsEnabled && s.endpoint.hasDomain }

end Settings

end RelayFleet
