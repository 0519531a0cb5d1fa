import RelayFleet.Fleet.Action
import RelayFleet.Relay.Transition

/-!
# The lifecycle of relays

Each operation moves a row by the table of transitions and calls the provisioner for the work behind
the move. The state is checked and changed in one transaction (`Lifecycle.transition`), so of two
callers who race on one relay only one finds it stopped and boots it.
-/

namespace RelayFleet

/-- Why a lifecycle operation failed. -/
inductive LifecycleError where
  | notFound (id : RelayId)
  | illegal (e : IllegalTransition)
  | provisioning (id : RelayId) (e : ProvisionError)
  | store (e : StoreError)
deriving Repr, DecidableEq, Inhabited

namespace LifecycleError

/-- The text of a failed operation. -/
def message : LifecycleError → String
  | notFound id => "relay not found: " ++ id
  | illegal e => e.message
  | provisioning id e => "provisioning failed for relay " ++ id ++ ": " ++ e.message
  | store e => "state store error: " ++ e.message

/-- The texts of a failed operation and of what made it fail. -/
def chain : LifecycleError → List String
  | provisioning id e => [(provisioning id e).message, e.message]
  | store e => [(store e).message, e.message]
  | e => [e.message]

/-- A registry error where a missing row means that the relay is not known. -/
def ofStore : StoreError → LifecycleError
  | .relayNotFound id => notFound id
  | e => store e

end LifecycleError

/-- A fleet program that ends with a value or with a lifecycle error. -/
abbrev LifecycleM (α : Type) := ExceptT LifecycleError Fleet α

/-- An operation that was applied to a row. -/
structure Applied where
  /-- The row afterwards. -/
  relay : Relay
  /-- The state before. -/
  source : RelayState
  transition : Transition
deriving Repr, DecidableEq, Inhabited

namespace Lifecycle

open Fleet LifecycleError

/-- The row after an operation, which is chosen by the row. `onMove` makes the further changes where
the state moves, from the state that is left. -/
def moved (choose : Relay → RelayOp) (onMove : RelayState → Relay → Relay) (r : Relay) : Relay :=
  match nextState r.state (choose r) with
  | .ok (.to s) => onMove r.state { r with state := s }
  | _ => r

/-- Applies an operation to the relay under a key, in one transaction. -/
def transition (id : RelayId) (choose : Relay → RelayOp)
    (onMove : RelayState → Relay → Relay) : LifecycleM Applied := do
  let change ← attempt ofStore (.updateRelay id (moved choose onMove))
  match nextState change.before.state (choose change.before) with
  | .ok t => return ⟨change.after, change.before.state, t⟩
  | .error e => throw (.illegal e)

/-- Applies an operation that changes nothing but the state. -/
def apply (id : RelayId) (op : RelayOp) : LifecycleM Applied :=
  transition id (fun _ => op) fun _ r => r

/-- Gives a relay back the state it was in, whatever state it is in by now. -/
def restore (id : RelayId) (s : RelayState) : LifecycleM Unit := do
  let _ ← attempt ofStore (.updateRelay id fun r => { r with state := s })

/-- A row without sessions. -/
def withoutSessions (_ : RelayState) (r : Relay) : Relay := { r with activeSessions := 0 }

/-- Boots a relay whose row was moved to `starting`: it is running afterwards, or stopped again. -/
def boot (r : Relay) : LifecycleM Relay := do
  match ← provision (.start r.id) with
  | .ok () =>
    let applied ← apply r.id .startCompleted
    emit ⟨.up, r.zoneId, some r.id, "relay up"⟩
    return applied.relay
  | .error e =>
    let _ ← apply r.id .startFailed
    throw (.provisioning r.id e)

/-- Provisions a new relay, which is stopped. -/
def create (zone : ZoneId) (spec : LaunchSpec) : LifecycleM Relay := do
  let id ← attempt store .nextRelayId
  match ← provision (.allocate id zone spec) with
  | .error e =>
    emit ⟨.createFailure, zone, some id, "relay allocation failed: " ++ e.message⟩
    throw (.provisioning id e)
  | .ok allocated =>
    let now ← now
    let r : Relay :=
      { Relay.fresh now id zone allocated.publicAddress allocated.port with
        tlsEnabled := spec.tlsEnabled }
    attempt store (.putRelay r)
    emit ⟨.created, zone, some id, "relay created"⟩
    return r

/-- Boots a stopped relay; one that is starting or running is left alone. -/
def start (id : RelayId) : LifecycleM Relay := do
  let applied ← apply id .start
  match applied.transition with
  | .unchanged => return applied.relay
  | .to _ => boot applied.relay

/-- Stops a relay; if that fails it gets its state back. -/
def stop (id : RelayId) : LifecycleM Relay := do
  let applied ← apply id .stop
  match applied.transition with
  | .unchanged => return applied.relay
  | .to _ =>
    match ← provision (.stop id) with
    | .error e =>
      restore id applied.source
      throw (.provisioning id e)
    | .ok () => return (← transition id (fun _ => .stopCompleted) withoutSessions).relay

/-- Destroys a stopped relay and removes its row; if that fails it gets its state back. -/
def destroy (id : RelayId) : LifecycleM Unit := do
  let applied ← apply id .destroy
  match applied.transition with
  | .unchanged => return ()
  | .to _ =>
    match ← provision (.destroy id) with
    | .error e =>
      restore id applied.source
      throw (.provisioning id e)
    | .ok () =>
      let _ ← attempt store (.deleteRelay id)
      emit ⟨.destroyed, applied.relay.zoneId, some id, "relay destroyed"⟩

/-- Reboots a running relay in place and boots a stopped one. -/
def reboot (id : RelayId) : LifecycleM Relay := do
  let applied ← apply id .reboot
  match applied.transition with
  | .to _ => boot applied.relay
  | .unchanged =>
    match ← provision (.reboot id) with
    | .error e => throw (.provisioning id e)
    | .ok () =>
      emit ⟨.rebooted, applied.relay.zoneId, some id, "relay rebooted"⟩
      return applied.relay

/-- The agent of a relay is lost: the relay is fenced and booted again, even if it could not be
stopped. -/
def agentDisconnected (id : RelayId) : LifecycleM Relay := do
  let _ ← apply id .agentDisconnected
  let _ ← provision (.stop id)
  let _ ← transition id (fun _ => .haFenced) withoutSessions
  let applied ← apply id .start
  boot applied.relay

/-- The migration of a relay begins. -/
def migrationStarted (id : RelayId) : LifecycleM Relay := do
  let applied ← transition id (fun _ => .migrationStarted)
    fun source r => { r with preMigrationState := some source }
  return applied.relay

/-- The migration of a relay is over: it runs if it ran before. -/
def migrationCompleted (id : RelayId) : LifecycleM Relay := do
  let applied ← transition id
    (fun r => .migrationCompleted (r.preMigrationState = some .running))
    fun _ r => { r with preMigrationState := none }
  return applied.relay

/-- The relays of a zone, or of all zones. -/
def list (zone : Option ZoneId) : LifecycleM (List Relay) :=
  attempt store (.listRelays fun r => zone.all (r.zoneId == ·))

end Lifecycle

end RelayFleet
