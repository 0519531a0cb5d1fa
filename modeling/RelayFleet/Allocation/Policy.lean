import RelayFleet.Settings.Basic

/-!
# The choice among relays

A policy picks a relay among candidates that are all running and have room. They come in the order
of the registry, which is that in which they were made.
-/

namespace RelayFleet

/-- The candidate with the fewest sessions, the first of several. -/
def leastLoaded? : List Relay → Option Relay
  | [] => none
  | r :: rest =>
    match leastLoaded? rest with
    | none => some r
    | some best => some (if r.activeSessions ≤ best.activeSessions then r else best)

/-- The candidate that a policy picks. -/
def PolicyKind.select? (p : PolicyKind) (candidates : List Relay) : Option Relay :=
  match p with
  | .firstFit => candidates.head?
  | .leastLoaded => leastLoaded? candidates

end RelayFleet
