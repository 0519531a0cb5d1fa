import RelayFleet.Decimal
import RelayFleet.Json.Reader

/-!
# Decoding JSON values

A decoder goes through a value in the order of its text and stops at the first fault. Faults are of
two kinds: the text is no JSON at that place (`malformed`), or the value there is not one of the
wanted type (`mismatch`). A container of the wrong type is a mismatch whatever it holds; a number
that double precision cannot hold is malformed wherever a number is not wanted.
-/

namespace RelayFleet.Json

/-- Why a text could not be decoded. -/
inductive Fault where
  | malformed
  | mismatch
deriving Repr, DecidableEq, Inhabited

/-- A decoder of values of type `α`. -/
abbrev Decoder (α : Type) := Value → Except Fault α

/-- The fault of a value that stands where another type is wanted. -/
def Value.fault : Value → Fault
  | .unreadable | .unpaired | .unnamed _ => .malformed
  | .natural n => if (Decimal.mk n 0).overflows then .malformed else .mismatch
  | .decimal literal =>
    if (Decimal.ofLiteral literal.toList).overflows then .malformed else .mismatch
  | _ => .mismatch

namespace Decoder

/-- A string. -/
def string : Decoder String
  | .string s => .ok s
  | v => .error v.fault

/-- `true` or `false`. -/
def bool : Decoder Bool
  | .bool b => .ok b
  | v => .error v.fault

/-- A number below `bound`, written with digits only. -/
def natural (bound : Nat) : Decoder Nat
  | .natural n => if n < bound then .ok n else .error (Value.natural n).fault
  | v => .error v.fault

/-- A number of sixteen bits. -/
def uint16 : Decoder UInt16 := fun v => UInt16.ofNat <$> natural UInt16.size v

/-- A number of thirty-two bits. -/
def uint32 : Decoder UInt32 := fun v => UInt32.ofNat <$> natural UInt32.size v

/-- A number of sixty-four bits. -/
def uint64 : Decoder UInt64 := fun v => UInt64.ofNat <$> natural UInt64.size v

/-- A value or `null`. -/
def optional {α : Type} (d : Decoder α) : Decoder (Option α)
  | .null => .ok none
  | v => some <$> d v

/-- The items of an array, in order. -/
def items {α : Type} (d : Decoder α) : List Value → Except Fault (List α)
  | [] => .ok []
  | v :: vs => do
    let a ← d v
    let as ← items d vs
    return a :: as

/-- An array. -/
def list {α : Type} (d : Decoder α) : Decoder (List α)
  | .array vs => items d vs
  | v => .error v.fault

/-- The first entry whose word is `w`. -/
def wordValue? {α : Type} (words : List (String × α)) (w : String) : Option α :=
  (words.find? (·.1 == w)).map (·.2)

/-- One of a list of words: a string, or an object whose only key is the word and whose value is
`empty`. Anything else than a string or an object is no JSON at this place. -/
def word {α : Type} (words : List (String × α)) (empty : Value → Bool) : Decoder α
  | .string s =>
    match wordValue? words s with
    | some a => .ok a
    | none => .error .mismatch
  | .object ((key, payload) :: rest) =>
    match wordValue? words key with
    | some a =>
      if !empty payload then .error payload.fault
      else if rest.isEmpty then .ok a
      else .error .malformed
    | none => .error (if key.isEmpty && !payload.intact then .malformed else .mismatch)
  | _ => .error .malformed

/-- The empty payload of a word in JSON text. -/
def isNull : Value → Bool
  | .null => true
  | _ => false

/-- Decodes what a text was read as, the whole of it. -/
def decode {α : Type} (d : Decoder α) (doc : Document) : Except Fault α :=
  match d doc.value with
  | .ok a => if doc.whole then .ok a else .error .malformed
  | .error f => .error f

/-- A text that is one value is decoded as this value is. -/
@[simp]
theorem decode_whole {α : Type} (d : Decoder α) (v : Value) : d.decode ⟨v, true⟩ = d v := by
  rw [decode]
  cases d v <;> rfl

/-- Decodes a whole text. -/
def run {α : Type} (d : Decoder α) (text : List Char) : Except Fault α := d.decode (read text)

/-- Decodes a whole text, forgetting the fault. -/
def run? {α : Type} (d : Decoder α) (text : String) : Option α :=
  (d.run text.toList).toOption

end Decoder

end RelayFleet.Json
