import RelayFleet.Fleet.Action
import RelayFleet.StatusReport

/-!
# Applying status reports

A relay reports its connections. A report that can be used replaces the session count of the relay
and its last report, and ends the bindings to it of the workloads whose sessions it lists as
expired. One that cannot be used changes nothing.
-/

namespace RelayFleet

/-- What became of a report. -/
inductive ReportOutcome where
  /-- The counters are those of the report; so many bindings were ended. -/
  | applied (sessions released : UInt32)
  | rejected (e : ReportError)
  | unknownRelay
deriving Repr, DecidableEq, Inhabited

namespace ReportOutcome

open Json

/-- What became of a report, in JSON. -/
def encode : ReportOutcome → Value
  | applied sessions released =>
    .object [
      ("outcome", .string "applied"),
      ("sessions", .natural sessions.toNat),
      ("released", .natural released.toNat)]
  | rejected e => .object [("outcome", .string "rejected"), ("reason", .string e.message)]
  | unknownRelay => .object [("outcome", .string "unknown_relay")]

end ReportOutcome

open Fleet

/-- A row after a report. -/
def Relay.withReport (r : Relay) (sessions : UInt32) (payload : String) (now : Millis) : Relay :=
  { r with
    activeSessions := sessions
    statusPayload := some payload
    statusReceivedAt := some now }

/-- Applies the text of a report from a relay. -/
def applyReport (id : RelayId) (text : String) : Fleet (StoreResult ReportOutcome) := do
  match StatusReport.parse text with
  | .error e => return .ok (.rejected e)
  | .ok report =>
    let sessions := report.connectionCount
    let now ← now
    match ← transact (.updateRelay id fun r => r.withReport sessions text now) with
    | .error (.relayNotFound _) => return .ok .unknownRelay
    | .error e => return .error e
    | .ok _ =>
      if report.expiredTags.isEmpty then return .ok (.applied sessions 0)
      else return (← transact (.releaseBindings id report.expiredTags)).map (.applied sessions)

end RelayFleet
