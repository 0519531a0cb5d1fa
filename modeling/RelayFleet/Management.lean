import RelayFleet.Lifecycle

/-!
# Managing the mode

Operators switch the mode; a drain is advanced by ticks. In `suspending` the first tick stops every
running relay and goes on to `resetSuspending`, where ticks stop the ones that came up meanwhile
until no relay is running, starting or stopping, and then give back the mode before the drain.
-/

namespace RelayFleet

namespace ModeRecord

/-- The record after a switch to another mode. -/
def switched (r : ModeRecord) (m : Mode) : ModeRecord := ⟨m, r.current⟩

/-- The mode that a resume goes back to: a drain is never gone back to. -/
def resumeTarget (r : ModeRecord) : Mode := if r.previous.isDraining then .auto else r.previous

end ModeRecord

/-- Whether a relay in this state keeps a drain from ending. -/
def RelayState.keepsDraining (s : RelayState) : Bool := s = .running ∨ s = .starting ∨ s = .stopping

/-- A fleet program that ends with a value or with a registry error. -/
abbrev StoreM (α : Type) := ExceptT StoreError Fleet α

namespace Management

open Fleet

/-- A transaction in a program that fails as the registry does. -/
def query (t : Transaction) : StoreM t.Reply := attempt id t

/-- The stored mode. -/
def get : StoreM ModeRecord := query .getMode

/-- Switches to a mode; the record remembers the mode that is left. -/
def set (m : Mode) : StoreM ModeRecord := do
  let r ← get
  if r.current = m then return r
  else
    query (.putMode (r.switched m))
    return r.switched m

/-- Goes back to the mode before the current one, to `auto` if that is a drain. -/
def resume : StoreM ModeRecord := do
  let r ← get
  if r.current = r.resumeTarget then return r
  else
    query (.putMode { r with current := r.resumeTarget })
    return { r with current := r.resumeTarget }

/-- Stops relays one after the other, whatever comes of it. -/
def stopAll (relays : List Relay) : Fleet Unit :=
  relays.forM fun r => do let _ ← (Lifecycle.stop r.id).run

/-- Stops every running relay. -/
def stopRunning : StoreM Unit := do
  let running ← query (.listRelays fun r => r.state = .running)
  stopAll running

/-- Advances a drain; the mode that is in force then. -/
def tick : StoreM Mode := do
  let r ← get
  match r.current with
  | .auto | .manual => return r.current
  | .suspending =>
    stopRunning
    query (.putMode { r with current := .resetSuspending })
    return .resetSuspending
  | .resetSuspending =>
    stopRunning
    let remaining ← query (.listRelays fun r => r.state.keepsDraining)
    if remaining.isEmpty then return (← resume).current else return r.current

end Management

end RelayFleet
