import RelayFleet.Json.Record

/-!
# Management modes

The operator's mode decides whether the capacity scan may act. The two suspending modes drain the
fleet; the record keeps the mode that the current one replaced, so that a drain can give it back.
-/

namespace RelayFleet

open Json Json.Decoder Json.Record

/-- The operator's mode of the fleet. -/
inductive Mode where
  | auto
  | manual
  | suspending
  | resetSuspending
deriving Repr, DecidableEq, Inhabited

namespace Mode

/-- Every mode. -/
def all : List Mode := [auto, manual, suspending, resetSuspending]

/-- The word for a mode, in texts and in records. -/
def word : Mode → String
  | auto => "Auto"
  | manual => "Manual"
  | suspending => "Suspending"
  | resetSuspending => "ResetSuspending"

instance : ToString Mode := ⟨word⟩

/-- Whether relays are being stopped in this mode. -/
def isDraining (m : Mode) : Bool := m = suspending ∨ m = resetSuspending

/-- A mode in JSON. -/
def encode (m : Mode) : Value := .string m.word

/-- A mode from JSON. -/
def decoder : Decoder Mode := Decoder.word (all.map fun m => (m.word, m)) isNull

end Mode

/-- The stored mode with the mode that it replaced. -/
structure ModeRecord where
  current : Mode
  previous : Mode
deriving Repr, DecidableEq, Inhabited

namespace ModeRecord

/-- The record of a fleet whose mode was never set. -/
def initial : ModeRecord := ⟨.auto, .auto⟩

/-- A mode record in JSON. -/
def encode (r : ModeRecord) : Value :=
  .object [("current", r.current.encode), ("previous", r.previous.encode)]

/-- The fields of a mode record in JSON. -/
def record : Record ModeRecord :=
  ModeRecord.mk <$> required "current" Mode.decoder <*> required "previous" Mode.decoder

/-- A mode record from JSON. -/
def decoder : Decoder ModeRecord := record.decoder

end ModeRecord

end RelayFleet
