import RelayFleet.Allocation.Assign
import RelayFleet.Http.Message
import RelayFleet.Http.Route
import RelayFleet.Management
import RelayFleet.Metrics
import RelayFleet.Report

/-!
# The HTTP interface

Each route is one operation of the fleet. Its response wraps what the operation gives, or says with
a text and a code why it failed. A request that leads nowhere or cannot be decoded is answered
before anything is done.
-/

namespace RelayFleet.Api

open Http Fleet

/-- The response of an operation that succeeded. -/
def success (data : Json.Value) : Response :=
  .ofJson 200 (.object [("success", .bool true), ("data", data)])

/-- The response of an operation that failed. -/
def failure (status : Nat) (code text : String) : Response :=
  .ofJson status (.object [
    ("success", .bool false),
    ("error", .string text),
    ("code", .string code)])

/-- The response of a registry error. -/
def storeFailure (e : StoreError) : Response := failure 500 "state_error" e.message

/-- The response of an allocation error. -/
def allocFailure (e : AllocError) : Response :=
  let status := match e with
    | .notAssignable _ _ => 409
    | .lockTimeout _ => 503
    | .capacityExhausted _ => 503
    | .noPublicAddress _ => 502
    | .store _ => 500
  failure status e.code e.message

/-- The response of a lifecycle error. -/
def lifecycleFailure (e : LifecycleError) : Response :=
  let (status, code) := match e with
    | .notFound _ => (404, "not_found")
    | .illegal _ => (409, "illegal_transition")
    | .provisioning _ _ => (502, "provisioning_failure")
    | .store (.relayNotFound _) => (404, "not_found")
    | .store _ => (500, "state_error")
  failure status code e.message

/-- The response of a lifecycle operation. -/
def ofLifecycle {α : Type} (encode : α → Json.Value) (p : LifecycleM α) : Fleet Response := do
  match ← p.run with
  | .ok a => return success (encode a)
  | .error e => return lifecycleFailure e

/-- The response of an operation on the mode. -/
def ofMode (p : StoreM ModeRecord) : Fleet Response := do
  match ← p.run with
  | .ok r => return success r.encode
  | .error e => return storeFailure e

/-- Decodes a name of the path and goes on with it. -/
def withName (segment : String) (next : String → Fleet Response) : Fleet Response :=
  match decodeSegment segment with
  | some name => next name
  | none => return .rejected .pathEncoding

/-- Decodes the body and goes on with it. -/
def withBody {α : Type} (body : Except Rejection α) (next : α → Fleet Response) : Fleet Response :=
  match body with
  | .ok a => next a
  | .error r => return .rejected r

/-- The word for how an assignment ended: the code of its error if it has failed. -/
def assignWord {α : Type} : Except AllocError α → String
  | .ok _ => "ok"
  | .error e => e.code

/-- Counts how an assignment ended, if there is a counter for that word. -/
def count {α : Type} (result : Except AllocError α) : Fleet Unit :=
  match AssignOutcome.ofWord? (assignWord result) with
  | some o => record o
  | none => return

/-- Assigns a relay and counts how that ended. -/
def assign (rules : AssignRules) (zone : ZoneId) (w : Workload) : Fleet Response := do
  let result ← rules.assign zone w
  count result
  match result with
  | .ok endpoint => return success endpoint.encode
  | .error e => return allocFailure e

/-- Applies a status report. -/
def report (id : RelayId) (text : String) : Fleet Response := do
  match ← applyReport id text with
  | .ok (.rejected e) => return failure 422 "malformed_status" e.message
  | .ok .unknownRelay => return failure 404 "not_found" "relay not found"
  | .ok outcome => return success outcome.encode
  | .error e => return storeFailure e

/-- The metrics; what cannot be read is left out. -/
def metrics : Fleet Response := do
  let capacities ← transact (.listRelays fun _ => true)
  let zones := match capacities with
    | .ok relays => (zoneCapacities relays).mergeSort fun a b => a.zoneId ≤ b.zoneId
    | .error _ => []
  let mode := match ← transact .getMode with
    | .ok r => r.current
    | .error _ => .auto
  return .ofMetrics (Metrics.text zones mode (← counters))

/-- The body of a request to switch the mode. -/
def modeRequest : Json.Decoder Mode :=
  (Json.Record.required "state" Mode.decoder).decoder

/-- Carries out what a route asks for. -/
def handle (rules : AssignRules) (request : Request) : Route → Fleet Response
  | .assign zone => withName zone fun zone =>
    withBody (request.decodeJson Workload.decoder) (assign rules zone)
  | .listRelays zone => withName zone fun zone =>
    ofLifecycle (fun relays => .array (relays.map Relay.encode)) (Lifecycle.list (some zone))
  | .destroy id => withName id fun id =>
    ofLifecycle (fun () => .string "destroyed") (Lifecycle.destroy id)
  | .start id => withName id fun id => ofLifecycle Relay.encode (Lifecycle.start id)
  | .stop id => withName id fun id => ofLifecycle Relay.encode (Lifecycle.stop id)
  | .reboot id => withName id fun id => ofLifecycle Relay.encode (Lifecycle.reboot id)
  | .status id => withName id fun id => withBody request.text (report id)
  | .disconnect id => withName id fun id =>
    ofLifecycle Relay.encode (Lifecycle.agentDisconnected id)
  | .migrationStart id => withName id fun id =>
    ofLifecycle Relay.encode (Lifecycle.migrationStarted id)
  | .migrationComplete id => withName id fun id =>
    ofLifecycle Relay.encode (Lifecycle.migrationCompleted id)
  | .getMode => ofMode Management.get
  | .setMode => withBody (request.decodeJson modeRequest) fun m => ofMode (Management.set m)
  | .resumeMode => ofMode Management.resume
  | .metrics => metrics

/-- Answers a request. -/
def respond (rules : AssignRules) (request : Request) : Fleet Response := do
  match destination request.method request.target with
  | .nowhere => return .bare 404
  | .wrongMethod => return .bare 405
  | .route r =>
    let response ← handle rules request r
    return if request.method = "HEAD" then response.withoutBody else response

end RelayFleet.Api
