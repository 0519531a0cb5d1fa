import RelayFleet.Registry.Basic

/-!
# Transactions

What a fleet asks of its registry, as data. A transaction runs as a whole: nothing comes between its
reading and its writing, and one that fails changes nothing (`Transaction.run`).
-/

namespace RelayFleet

/-- A transaction on the registry. -/
inductive Transaction where
  | nextRelayId
  | putRelay (r : Relay)
  | getRelay (id : RelayId)
  | updateRelay (id : RelayId) (change : Relay → Relay)
  | deleteRelay (id : RelayId)
  | listRelays (keep : Relay → Bool)
  | putBinding (b : Binding)
  | getBinding (w : WorkloadId)
  | deleteBinding (w : WorkloadId)
  | releaseBindings (id : RelayId) (workloads : List WorkloadId)
  | getMode
  | putMode (m : ModeRecord)
deriving Inhabited

namespace Transaction

/-- What a transaction answers. -/
abbrev Reply : Transaction → Type
  | nextRelayId => RelayId
  | putRelay _ => Unit
  | getRelay _ => Option Relay
  | updateRelay _ _ => Registry.Change
  | deleteRelay _ => Bool
  | listRelays _ => List Relay
  | putBinding _ => Unit
  | getBinding _ => Option Binding
  | deleteBinding _ => Bool
  | releaseBindings _ _ => UInt32
  | getMode => ModeRecord
  | putMode _ => Unit

/-- Runs a transaction at a time. -/
def run (now : Millis) (g : Registry) : (t : Transaction) → StoreResult t.Reply × Registry
  | nextRelayId => (.ok g.nextRelayId.1, g.nextRelayId.2)
  | putRelay r => (.ok (), g.putRelay r)
  | getRelay id => (g.getRelay id, g)
  | updateRelay id change => g.updateRelay now id change
  | deleteRelay id => (.ok (g.deleteRelay id).1, (g.deleteRelay id).2)
  | listRelays keep => (g.listRelays keep, g)
  | putBinding b => (.ok (), g.putBinding b)
  | getBinding w => (g.getBinding w, g)
  | deleteBinding w => (.ok (g.deleteBinding w).1, (g.deleteBinding w).2)
  | releaseBindings id workloads => g.releaseBindings id workloads
  | getMode => (g.getMode, g)
  | putMode m => (.ok (), g.putMode m)

end Transaction

end RelayFleet
