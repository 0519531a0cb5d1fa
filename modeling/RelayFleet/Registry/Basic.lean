import RelayFleet.Capacity
import RelayFleet.Mode
import RelayFleet.Registry.Table
import RelayFleet.Workload

/-!
# The registry

The registry keeps the rows of relays and bindings, the operators' mode and the counter of relay
ids. Rows are kept as JSON text and decoded only when they are read, so a row that cannot be decoded
makes the reads fail that meet it and no others. A row stands under a key: reads of one row look at
the key, listings at the rows.
-/

namespace RelayFleet

/-- Why the registry could not answer. -/
inductive StoreError where
  /-- A row that was read is no JSON of its type. -/
  | undecodable
  | relayNotFound (id : RelayId)
deriving Repr, DecidableEq, Inhabited

/-- The text of a registry error. -/
def StoreError.message : StoreError → String
  | undecodable => "failed to decode record"
  | relayNotFound id => "relay not found: " ++ id

/-- The stored state of a fleet. -/
structure Registry where
  relays : Table String
  bindings : Table String
  mode : Option String
  /-- How many relay ids were issued. -/
  sequence : UInt64
deriving Inhabited

/-- An answer of the registry. -/
abbrev StoreResult (α : Type) := Except StoreError α

/-- Decodes the text of a row. -/
def decodeRow {α : Type} (d : Json.Decoder α) (text : String) : StoreResult α :=
  match d.run? text with
  | some a => .ok a
  | none => .error .undecodable

namespace Registry

/-- The registry of a new fleet. -/
def empty : Registry := ⟨.empty, .empty, none, 0⟩

/-- A number in decimal digits, with zeros before it up to `width` digits. -/
def padded (width n : Nat) : String :=
  let digits := Nat.toDigits 10 n
  String.ofList (List.replicate (width - digits.length) '0' ++ digits)

/-- The relay id with a number. Six digits keep the order of the bytes that of smaller numbers. -/
def relayId (n : UInt64) : RelayId := "relay-" ++ padded 6 n.toNat

/-- Issues the next relay id. -/
def nextRelayId (g : Registry) : RelayId × Registry :=
  let n := g.sequence + 1
  (relayId n, { g with sequence := n })

/-- Stores a relay under its id. -/
def putRelay (g : Registry) (r : Relay) : Registry :=
  { g with relays := g.relays.insert r.id r.encode.render }

/-- The relay under a key, if there is one. -/
def getRelay (g : Registry) (id : RelayId) : StoreResult (Option Relay) :=
  match g.relays.get? id with
  | some text => some <$> decodeRow Relay.decoder text
  | none => .ok none

/-- The relay under a key; it is an error that there is none. -/
def requireRelay (g : Registry) (id : RelayId) : StoreResult Relay := do
  match ← g.getRelay id with
  | some r => return r
  | none => throw (.relayNotFound id)

/-- A change of one row: the row before it and after it. -/
structure Change where
  before : Relay
  after : Relay
deriving Repr, DecidableEq, Inhabited

/-- Changes the relay under a key; the time of the change is put down in it whatever the change. -/
def updateRelay (g : Registry) (now : Millis) (id : RelayId) (change : Relay → Relay) :
    StoreResult Change × Registry :=
  match g.requireRelay id with
  | .error e => (.error e, g)
  | .ok before =>
    let after := { change before with updatedAt := now }
    (.ok ⟨before, after⟩, { g with relays := g.relays.insert id after.encode.render })

/-- Removes the relay under a key; says whether there was one. -/
def deleteRelay (g : Registry) (id : RelayId) : Bool × Registry :=
  (g.relays.contains id, { g with relays := g.relays.erase id })

/-- The relays that satisfy a condition, in the order of their keys. -/
def listRelays (g : Registry) (keep : Relay → Bool) : StoreResult (List Relay) := do
  let relays ← g.relays.values.mapM (decodeRow Relay.decoder)
  return relays.filter keep

/-- The capacity of one zone, from the relays in it. -/
def zoneCapacity (g : Registry) (zone : ZoneId) : StoreResult ZoneCapacity :=
  ZoneCapacity.ofRelays zone <$> g.listRelays (·.zoneId == zone)

/-- The capacity of every zone that has a relay. -/
def zoneCapacities (g : Registry) : StoreResult (List ZoneCapacity) :=
  RelayFleet.zoneCapacities <$> g.listRelays fun _ => true

/-- Stores the binding of a workload. -/
def putBinding (g : Registry) (b : Binding) : Registry :=
  { g with bindings := g.bindings.insert b.workloadId b.encode.render }

/-- The binding under a key, if there is one. -/
def getBinding (g : Registry) (w : WorkloadId) : StoreResult (Option Binding) :=
  match g.bindings.get? w with
  | some text => some <$> decodeRow Binding.decoder text
  | none => .ok none

/-- Removes the binding of a workload; says whether there was one. -/
def deleteBinding (g : Registry) (w : WorkloadId) : Bool × Registry :=
  (g.bindings.contains w, { g with bindings := g.bindings.erase w })

/-- Removes the binding of one workload from the table if it points at the relay, and counts it. -/
def releaseBinding (id : RelayId) (released : UInt32 × Table String) (w : WorkloadId) :
    StoreResult (UInt32 × Table String) :=
  match released.2.get? w with
  | none => .ok released
  | some text => do
    let b ← decodeRow Binding.decoder text
    return if b.relayId = some id then (released.1 + 1, released.2.erase w) else released

/-- Removes those bindings of the listed workloads that point at the relay, and counts them. If one
of them cannot be decoded, none is removed. -/
def releaseBindings (g : Registry) (id : RelayId) (workloads : List WorkloadId) :
    StoreResult UInt32 × Registry :=
  match workloads.foldlM (releaseBinding id) (0, g.bindings) with
  | .error e => (.error e, g)
  | .ok (count, bindings) => (.ok count, { g with bindings := bindings })

/-- The stored mode, the initial one if none was ever set. -/
def getMode (g : Registry) : StoreResult ModeRecord :=
  match g.mode with
  | some text => decodeRow ModeRecord.decoder text
  | none => .ok .initial

/-- Stores the mode. -/
def putMode (g : Registry) (m : ModeRecord) : Registry :=
  { g with mode := some m.encode.render }

end Registry

end RelayFleet
