/-!
# JSON values and their compact text

`Value` is the tree of a JSON text, members in the order of the text. Three of its constructors
stand only in trees that were read: `unpaired`, a string whose escapes name half of a surrogate pair
and so no text, `unnamed`, the value of a member whose key is such a string, and `unreadable`, the
place where the text stops being JSON. `Value.text` writes a tree
without blanks; what it writes is read back by `RelayFleet.Json.read`.
-/

namespace RelayFleet.Json

/-- The tree of a JSON text. -/
inductive Value where
  | null
  | bool (b : Bool)
  /-- A number written with digits only. -/
  | natural (n : Nat)
  /-- A number with a sign, a fraction or an exponent, as it is written. -/
  | decimal (literal : String)
  | string (s : String)
  /-- A string with an escape for half of a surrogate pair: well-formed, but no text. -/
  | unpaired
  | array (items : List Value)
  | object (members : List (String × Value))
  /-- The value of a member whose key is no text; the key is left empty. -/
  | unnamed (v : Value)
  /-- The place where a text stops being JSON. -/
  | unreadable
deriving Repr, Inhabited

/-- The lower-case hexadecimal digit of a number below sixteen. -/
def hexDigit (n : Nat) : Char := Nat.digitChar n

/-- How a character stands inside quotes: the quote, the backslash and the control characters below
the blank are escaped, everything else stands for itself. -/
def escape (c : Char) : List Char :=
  if c = '"' then ['\\', '"']
  else if c = '\\' then ['\\', '\\']
  else if c = '\n' then ['\\', 'n']
  else if c = '\r' then ['\\', 'r']
  else if c = '\t' then ['\\', 't']
  else if c = '\x08' then ['\\', 'b']
  else if c = '\x0c' then ['\\', 'f']
  else if c.toNat < 0x20 then
    ['\\', 'u', '0', '0', hexDigit (c.toNat / 16), hexDigit (c.toNat % 16)]
  else [c]

/-- A string in quotes. -/
def quoted (s : String) : List Char :=
  '"' :: s.toList.flatMap escape ++ ['"']

namespace Value

mutual

/-- The compact text of a value. -/
def text : Value → List Char
  | .null => ['n', 'u', 'l', 'l']
  | .bool true => ['t', 'r', 'u', 'e']
  | .bool false => ['f', 'a', 'l', 's', 'e']
  | .natural n => Nat.toDigits 10 n
  | .decimal literal => literal.toList
  | .string s => quoted s
  | .array [] => ['[', ']']
  | .array (v :: vs) => '[' :: v.text ++ itemsText vs
  | .object [] => ['\x7b', '\x7d']
  | .object ((k, v) :: ms) => '\x7b' :: quoted k ++ ':' :: v.text ++ membersText ms
  | .unpaired | .unnamed _ | .unreadable => []

/-- The items after the first one, each behind a comma, and the closing bracket. -/
def itemsText : List Value → List Char
  | [] => [']']
  | v :: vs => ',' :: v.text ++ itemsText vs

/-- The members after the first one, each behind a comma, and the closing brace. -/
def membersText : List (String × Value) → List Char
  | [] => ['\x7d']
  | (k, v) :: ms => ',' :: quoted k ++ ':' :: v.text ++ membersText ms

end

/-- The compact text of a value as a string. -/
def render (v : Value) : String := String.ofList v.text

mutual

/-- Whether the whole value was readable. -/
def intact : Value → Bool
  | .unreadable | .unnamed _ => false
  | .array vs => itemsIntact vs
  | .object ms => membersIntact ms
  | _ => true

/-- Whether every item was readable. -/
def itemsIntact : List Value → Bool
  | [] => true
  | v :: vs => v.intact && itemsIntact vs

/-- Whether the value of every member was readable. The keys need not be texts. -/
def membersIntact : List (String × Value) → Bool
  | [] => true
  | (_, .unnamed v) :: ms => v.intact && membersIntact ms
  | (_, v) :: ms => v.intact && membersIntact ms

end

/-- The value of an optional string, `null` for none. -/
def ofString? : Option String → Value
  | some s => .string s
  | none => .null

/-- The value of an optional number, `null` for none. -/
def ofNatural? : Option Nat → Value
  | some n => .natural n
  | none => .null

end Value

end RelayFleet.Json
