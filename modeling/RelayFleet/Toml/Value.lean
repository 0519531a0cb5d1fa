import RelayFleet.Json.Value

/-!
# TOML values

The tree of a TOML document, and the JSON tree that holds the same data. A moment has no JSON
counterpart; it becomes an object with one member under a name that no record uses.
-/

namespace RelayFleet.Toml

/-- The least natural number that is no integer of 64 bits. -/
def integerLimit : Nat := 9223372036854775808

/-- A TOML value. Tables keep the order of their entries. -/
inductive Value where
  | string (s : String)
  | integer (n : Int)
  /-- A float, as it is written but without underscores. -/
  | float (literal : String)
  | boolean (b : Bool)
  /-- A date, a time of day, or both. -/
  | moment (text : String)
  | array (items : List Value)
  | table (entries : List (String × Value))
deriving Repr, Inhabited

namespace Value

/-- The name of the member that stands for a moment in JSON. -/
def momentKey : String := "$moment"

mutual

/-- The JSON tree with the same data. -/
def toJson : Value → Json.Value
  | .string s => .string s
  | .integer n => if n < 0 then .decimal (toString n) else .natural n.toNat
  | .float literal => .decimal literal
  | .boolean b => .bool b
  | .moment text => .object [(momentKey, .string text)]
  | .array items => .array (itemsToJson items)
  | .table entries => .object (entriesToJson entries)

/-- The JSON trees of items. -/
def itemsToJson : List Value → List Json.Value
  | [] => []
  | v :: vs => v.toJson :: itemsToJson vs

/-- The JSON members of entries. -/
def entriesToJson : List (String × Value) → List (String × Json.Value)
  | [] => []
  | (k, v) :: es => (k, v.toJson) :: entriesToJson es

end

@[simp] theorem toJson_string (s : String) : (string s).toJson = .string s := rfl

@[simp] theorem toJson_boolean (b : Bool) : (boolean b).toJson = .bool b := rfl

/-- A natural number stays one. -/
@[simp] theorem toJson_natural (n : Nat) : (integer n).toJson = .natural n := by
  simp [toJson]

/-- Items are turned into JSON one by one. -/
theorem toJson_array (items : List Value) : (array items).toJson = .array (items.map toJson) := by
  rw [toJson]
  congr
  induction items with
  | nil => rfl
  | cons v vs ih => rw [itemsToJson, ih, List.map_cons]

/-- Entries keep their keys. -/
theorem toJson_table (entries : List (String × Value)) :
    (table entries).toJson = .object (entries.map fun e => (e.1, e.2.toJson)) := by
  rw [toJson]
  congr
  induction entries with
  | nil => rfl
  | cons e es ih => rw [entriesToJson, ih, List.map_cons]

end Value

end RelayFleet.Toml
