import RelayFleet.Relay.Basic

/-!
# Calls to the provisioner

The provisioner does the work behind a lifecycle operation: it finds resources and an address for a
new relay, boots it, stops it and gives its resources back. A fleet only decides whether a call is
made and what follows from its outcome.
-/

namespace RelayFleet

open Json Json.Decoder Json.Record

/-- What to launch when a zone needs a new relay. -/
structure LaunchSpec where
  template : String
  offering : String
  tlsEnabled : Bool
deriving Repr, DecidableEq, Inhabited

namespace LaunchSpec

/-- A launch specification in JSON. -/
def encode (s : LaunchSpec) : Value :=
  .object [
    ("template", .string s.template),
    ("offering", .string s.offering),
    ("tls_enabled", .bool s.tlsEnabled)]

/-- The fields of a launch specification. -/
def record : Record LaunchSpec :=
  LaunchSpec.mk <$> required "template" string <*> required "offering" string
    <*> required "tls_enabled" bool

/-- A launch specification from JSON. -/
def decoder : Decoder LaunchSpec := record.decoder

end LaunchSpec

/-- The network identity of a new relay. -/
structure Allocated where
  publicAddress : Option String
  port : UInt16
deriving Repr, DecidableEq, Inhabited

/-- What the provisioner can do. -/
inductive ProvisionOp where
  | allocate
  | start
  | stop
  | destroy
  | reboot
deriving Repr, DecidableEq, Inhabited

namespace ProvisionOp

/-- Everything the provisioner can do. -/
def all : List ProvisionOp := [allocate, start, stop, destroy, reboot]

/-- The word for an operation. -/
def word : ProvisionOp → String
  | allocate => "allocate"
  | start => "start"
  | stop => "stop"
  | destroy => "destroy"
  | reboot => "reboot"

end ProvisionOp

/-- A call that failed. -/
structure ProvisionError where
  op : ProvisionOp
  reason : String
deriving Repr, DecidableEq, Inhabited

/-- The text of a call that failed. -/
def ProvisionError.message (e : ProvisionError) : String :=
  e.op.word ++ " failed: " ++ e.reason

/-- A call to the provisioner. -/
inductive ProvisionCall where
  /-- Finds resources and a network identity. -/
  | allocate (id : RelayId) (zone : ZoneId) (spec : LaunchSpec)
  /-- Boots a relay; ends when its agent reports in. -/
  | start (id : RelayId)
  | stop (id : RelayId)
  /-- Gives the resources and the network identity back. -/
  | destroy (id : RelayId)
  /-- Reboots a relay in place. -/
  | reboot (id : RelayId)
deriving Repr, DecidableEq, Inhabited

namespace ProvisionCall

/-- The operation of a call. -/
def op : ProvisionCall → ProvisionOp
  | allocate _ _ _ => .allocate
  | start _ => .start
  | stop _ => .stop
  | destroy _ => .destroy
  | reboot _ => .reboot

/-- What a call gives when it succeeds. -/
abbrev Gain : ProvisionCall → Type
  | allocate _ _ _ => Allocated
  | _ => Unit

/-- The outcome of a call. -/
abbrev Reply (c : ProvisionCall) : Type := Except ProvisionError c.Gain

end ProvisionCall

end RelayFleet
