import RelayFleet.Settings.Basic

/-!
# The zone directory

What is known about the zones at the moment. It begins with the zones of the settings and is told of
changes.
-/

namespace RelayFleet

/-- The zone directory. -/
structure ZoneDirectory where
  zones : List ZoneSettings
  /-- Whether a primary storage pool is up anywhere. -/
  storageUp : Bool
deriving Repr, DecidableEq, Inhabited

namespace ZoneDirectory

/-- The directory of zones, storage being up. -/
def ofZones (zones : List ZoneSettings) : ZoneDirectory := ⟨zones, true⟩

/-- Zones with one of them replaced, or added at the end. -/
def upsertZone (z : ZoneSettings) : List ZoneSettings → List ZoneSettings
  | [] => [z]
  | y :: rest => if y.id = z.id then z :: rest else y :: upsertZone z rest

/-- Replaces or adds a zone. -/
def upsert (d : ZoneDirectory) (z : ZoneSettings) : ZoneDirectory :=
  { d with zones := upsertZone z d.zones }

end ZoneDirectory

end RelayFleet
