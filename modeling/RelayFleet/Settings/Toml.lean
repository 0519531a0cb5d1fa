import RelayFleet.Settings.Basic
import RelayFleet.Toml.Printer
import RelayFleet.Toml.Reader

/-!
# Settings in TOML

Settings are kept in a TOML file. `Settings.parse` reads and validates its text, `Settings.print?`
writes settings down; `Settings.roundTrips` says whether what is written reads back as it was.
-/

namespace RelayFleet

/-- Why settings could not be loaded. -/
inductive LoadError where
  /-- There is no file, or it holds no text. -/
  | unreadable
  /-- The text is no TOML, or not of the shape of settings. -/
  | malformed
  | refused (e : SettingsError)
deriving Repr, DecidableEq, Inhabited

namespace Settings

/-- The empty payload of a word in TOML. -/
def isEmptyTable : Json.Value → Bool
  | .array [] => true
  | .object [] => true
  | _ => false

/-- The settings of a TOML text, before they are validated. -/
def ofToml? (text : List Char) : Option Settings := do
  let v ← Toml.read? text
  (decoder isEmptyTable v.toJson).toOption

/-- The settings of a TOML text. -/
def parse (text : String) : Except LoadError Settings :=
  match ofToml? text.toList with
  | none => .error .malformed
  | some s =>
    match s.validate with
    | .error e => .error (.refused e)
    | .ok s => .ok s

/-- The settings of a file with these bytes, or of one that is missing. -/
def load : Option ByteArray → Except LoadError Settings
  | none => .error .unreadable
  | some bytes =>
    match String.fromUTF8? bytes with
    | none => .error .unreadable
    | some text => parse text

/-- Whether every number is one that TOML can hold. -/
def fitsToml (s : Settings) : Bool :=
  [s.fleet.scanIntervalMs, s.fleet.initialScanDelayMs, s.fleet.allocationLockTimeoutSecs,
    s.fleet.sessionStickyTimeoutMs].all (·.toNat < Toml.integerLimit)

open Toml in
/-- The section of the fleet. -/
def fleetText (s : FleetSettings) : List Char :=
  "[fleet]\n".toList ++ naturalLine "capacity_per_instance" s.capacityPerInstance.toNat ++
    naturalLine "standby_threshold" s.standbyThreshold.toNat ++
    naturalLine "scan_interval_ms" s.scanIntervalMs.toNat ++
    naturalLine "initial_scan_delay_ms" s.initialScanDelayMs.toNat ++
    naturalLine "allocation_lock_timeout_secs" s.allocationLockTimeoutSecs.toNat ++
    naturalLine "session_sticky_timeout_ms" s.sessionStickyTimeoutMs.toNat ++
    naturalLine "launch_max_per_zone" s.launchMaxPerZone.toNat ++
    stringLine "allocation_policy" s.allocationPolicy.name ++
    stringLine "relay_template" s.relayTemplate ++ stringLine "relay_offering" s.relayOffering

open Toml in
/-- The section of the endpoints. -/
def endpointText (s : EndpointSettings) : List Char :=
  "[endpoint]\n".toList ++ booleanLine "tls_enabled" s.tlsEnabled ++
    optionalLine "url_domain" s.urlDomain ++ naturalLine "console_port" s.consolePort.toNat ++
    optionalLine "static_public_address" s.staticPublicAddress ++
    naturalLine "static_port" s.staticPort.toNat

open Toml in
/-- The section of a zone. -/
def zoneText (z : ZoneSettings) : List Char :=
  "[[zones]]\n".toList ++ stringLine "id" z.id ++ booleanLine "enabled" z.enabled ++
    booleanLine "relay_required" z.relayRequired ++ naturalLine "hosts_up" z.hostsUp.toNat ++
    booleanLine "boot_image_ready" z.bootImageReady ++
    booleanLine "primary_storage_ready" z.primaryStorageReady

/-- The TOML text of settings. -/
def toToml (s : Settings) : List Char :=
  (if s.zones.isEmpty then "zones = []\n\n".toList else []) ++ fleetText s.fleet ++ ['\n'] ++
    endpointText s.endpoint ++ s.zones.flatMap fun z => '\n' :: zoneText z

/-- The TOML text of settings, unless they hold a number that TOML cannot. -/
def print? (s : Settings) : Option String :=
  if s.fitsToml then some (String.ofList s.toToml) else none

/-- Whether the settings can be written and what is written reads back as they are. -/
def roundTrips (s : Settings) : Bool :=
  match s.print? with
  | none => false
  | some text =>
    match parse text with
    | .ok t => t = s
    | .error _ => false

end Settings

end RelayFleet
