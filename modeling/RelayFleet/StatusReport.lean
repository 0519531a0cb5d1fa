import RelayFleet.Relay.Basic

/-!
# Status reports

A relay reports its live connections as JSON. Members that the report does not know are skipped, so
that relays may add to their reports; a report without connections, or of a version that this
library does not know, is refused (`StatusReport.parse`).
-/

namespace RelayFleet

open Json Json.Decoder Json.Record

/-- The highest version of reports that is understood. -/
def reportVersion : UInt32 := 1

/-- A live connection of a client on a relay. -/
structure Connection where
  /-- The workload that the connection belongs to. -/
  tag : WorkloadId
  clientAddress : Option String
  createdAt : Option Millis
  lastUsedAt : Option Millis
deriving Repr, DecidableEq, Inhabited

namespace Connection

/-- A member for an optional value, left out when there is none. -/
def optionalMember (name : String) : Option Value → List (String × Value)
  | some v => [(name, v)]
  | none => []

/-- A connection in JSON. -/
def encode (c : Connection) : Value :=
  .object (("tag", .string c.tag) ::
    optionalMember "clientAddress" (c.clientAddress.map .string) ++
    optionalMember "createdAt" (c.createdAt.map fun t => .natural t.toNat) ++
    optionalMember "lastUsedAt" (c.lastUsedAt.map fun t => .natural t.toNat))

/-- The fields of a connection in JSON. -/
def record : Record Connection :=
  Connection.mk <$> required "tag" string <*> defaulted "clientAddress" string.optional none
    <*> defaulted "createdAt" uint64.optional none
    <*> defaulted "lastUsedAt" uint64.optional none

/-- A connection from JSON. -/
def decoder : Decoder Connection := record.decoder

end Connection

/-- What a relay reports about itself. -/
structure StatusReport where
  version : UInt32
  activeConnections : List Connection
  expiredTags : List WorkloadId
deriving Repr, DecidableEq, Inhabited

/-- Why a status report was refused. -/
inductive ReportError where
  | malformed
  | unsupportedVersion (found : UInt32)
deriving Repr, DecidableEq, Inhabited

/-- The text of a refused report. -/
def ReportError.message : ReportError → String
  | malformed => "malformed status report"
  | unsupportedVersion found =>
    "unsupported status report version " ++ toString found.toNat ++ " (max "
      ++ toString reportVersion.toNat ++ ")"

namespace StatusReport

/-- A report in JSON. -/
def encode (r : StatusReport) : Value :=
  .object [
    ("version", .natural r.version.toNat),
    ("activeConnections", .array (r.activeConnections.map Connection.encode)),
    ("expiredTags", .array (r.expiredTags.map .string))]

/-- The fields of a report in JSON. -/
def record : Record StatusReport :=
  StatusReport.mk <$> defaulted "version" uint32 reportVersion
    <*> required "activeConnections" (list Connection.decoder)
    <*> defaulted "expiredTags" (list string) []

/-- A report from JSON, of any version. -/
def decoder : Decoder StatusReport := record.decoder

/-- A report from its text. The whole text is decoded before its version is looked at. -/
def parse (text : String) : Except ReportError StatusReport :=
  match decoder.run? text with
  | none => .error .malformed
  | some r =>
    if r.version = 0 ∨ reportVersion < r.version then .error (.unsupportedVersion r.version)
    else .ok r

/-- The number of live connections. -/
def connectionCount (r : StatusReport) : UInt32 := UInt32.ofNat r.activeConnections.length

/-- Whether a connection belongs to this workload. -/
def hasConnectionFor (r : StatusReport) (w : WorkloadId) : Bool :=
  r.activeConnections.any (·.tag == w)

end StatusReport

end RelayFleet
