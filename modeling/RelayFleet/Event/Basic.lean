import RelayFleet.Relay.Basic

/-!
# Events

What becomes of relays is announced by events: that one was made, came up, rebooted or was
destroyed, and that a zone got no relay although it needed one.
-/

namespace RelayFleet

/-- What an event announces. -/
inductive EventKind where
  | created
  | up
  | createFailure
  | rebooted
  | destroyed
deriving Repr, DecidableEq, Inhabited

namespace EventKind

/-- Every kind of event. -/
def all : List EventKind := [created, up, createFailure, rebooted, destroyed]

/-- The word for a kind of event. -/
def word : EventKind → String
  | created => "created"
  | up => "up"
  | createFailure => "create_failure"
  | rebooted => "rebooted"
  | destroyed => "destroyed"

end EventKind

/-- An event. -/
structure Event where
  kind : EventKind
  zoneId : ZoneId
  relayId : Option RelayId
  message : String
deriving Repr, DecidableEq, Inhabited

namespace Event

open Json

/-- An event in JSON. -/
def encode (e : Event) : Value :=
  .object [
    ("kind", .string e.kind.word),
    ("zone_id", .string e.zoneId),
    ("relay_id", .ofString? e.relayId),
    ("message", .string e.message)]

end Event

end RelayFleet
