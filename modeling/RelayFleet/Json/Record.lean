import RelayFleet.Json.Decoder

/-!
# Records in JSON

A record is written as an object with a member for each field, or as an array of the fields in their
order. Members that are no fields are skipped, a field twice is a fault; a field may be left out of
the object, and at the end of the array, as `Record.required`, `Record.nullable` and
`Record.defaulted` say. `Record` is applicative: a record type is described by its constructor
applied to its fields, in order.
-/

namespace RelayFleet.Json

/-- A field of a record as the decoder sees it before the record is built. -/
structure Field where
  name : String
  /-- Decodes a value of the field and forgets it. -/
  check : Decoder Unit
  /-- Whether an array may end before this field. -/
  trailing : Bool

/-- The fields of a record and how it is built from the values of those that are present. -/
structure Record (α : Type) where
  fields : List Field
  build : (String → Option Value) → Except Fault α

namespace Record

variable {α β : Type}

instance : Functor Record where
  map f r := ⟨r.fields, fun get => f <$> r.build get⟩

instance : Pure Record where
  pure a := ⟨[], fun _ => .ok a⟩

instance : Seq Record where
  seq f r := ⟨f.fields ++ (r ()).fields, fun get => do
    let g ← f.build get
    let a ← (r ()).build get
    return g a⟩

/-- One field, which takes `absent` where it is left out of an object. -/
def field (name : String) (d : Decoder α) (trailing : Bool) (absent : Except Fault α) :
    Record α where
  fields := [⟨name, fun v => (fun _ => ()) <$> d v, trailing⟩]
  build get := match get name with
    | some v => d v
    | none => absent

/-- A field that must be present. -/
def required (name : String) (d : Decoder α) : Record α :=
  field name d false (.error .mismatch)

/-- A field that is `null` where it is left out of an object; an array must hold it. -/
def nullable (name : String) (d : Decoder α) : Record (Option α) :=
  field name d.optional false (.ok none)

/-- A field with a default, which an object may leave out, and an array at its end. -/
def defaulted (name : String) (d : Decoder α) (a : α) : Record α :=
  field name d true (.ok a)

/-- The value of the first member with this key. -/
def lookup (members : List (String × Value)) (key : String) : Option Value :=
  (members.find? (·.1 == key)).map (·.2)

/-- Checks the members of an object in order; `seen` holds the fields met so far. -/
def checkMembers (fields : List Field) : List String → List (String × Value) → Except Fault Unit
  | _, [] => .ok ()
  | seen, (key, v) :: rest =>
    match fields.find? (·.name == key) with
    | none => if v.intact then checkMembers fields seen rest else .error .malformed
    | some f =>
      if seen.contains key then .error .mismatch
      else do
        f.check v
        checkMembers fields (key :: seen) rest

/-- Checks the items of an array against the fields in order. -/
def checkItems : List Field → List Value → Except Fault Unit
  | [], [] => .ok ()
  | [], _ :: _ => .error .malformed
  | f :: fs, [] => if f.trailing then checkItems fs [] else .error .mismatch
  | f :: fs, v :: vs => do
    f.check v
    checkItems fs vs

/-- The decoder of a record. -/
def decoder (r : Record α) : Decoder α
  | .object members => do
    checkMembers r.fields [] members
    r.build (lookup members)
  | .array items => do
    checkItems r.fields items
    r.build (lookup ((r.fields.map (·.name)).zip items))
  | v => .error v.fault

end Record

end RelayFleet.Json
