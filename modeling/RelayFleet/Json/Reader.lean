import RelayFleet.Json.Token

/-!
# Reading a JSON text

The reader keeps the containers that are open in a list of frames and takes the text character by
character, so that it needs neither recursion nor a bound. `read` always answers with a tree: where
the text stops being JSON the open containers are closed around the leaf `Value.unreadable`, so a
decoder that goes through the tree in order meets the break exactly where the text has it.
-/

namespace RelayFleet.Json

/-- A container that is open around the place the reader has reached, its parts last first. -/
inductive Frame where
  | items (read : List Value)
  /-- The value of member `key` is being read; `none` is a key that is no text. -/
  | members (read : List (String × Value)) (key : Option String)
deriving Repr, Inhabited

/-- What the reader expects next. -/
inductive Builder where
  | nextValue (stack : List Frame)
  /-- A value or the end of the array. -/
  | firstItem (stack : List Frame)
  | afterItem (read : List Value) (stack : List Frame)
  /-- A key or the end of the object. -/
  | firstKey (stack : List Frame)
  | nextKey (read : List (String × Value)) (stack : List Frame)
  | nextColon (read : List (String × Value)) (key : Option String) (stack : List Frame)
  | afterMember (read : List (String × Value)) (stack : List Frame)
  | finished (v : Value)
  /-- The text is not JSON; `v` is the tree up to the break. -/
  | stopped (v : Value)
deriving Repr, Inhabited

namespace Builder

/-- A member of an object. -/
def member (key : Option String) (v : Value) : String × Value :=
  match key with
  | some key => (key, v)
  | none => ("", .unnamed v)

@[simp] theorem member_some (key : String) (v : Value) : member (some key) v = (key, v) := rfl

/-- Puts a complete value into the innermost open container. -/
def put (v : Value) : List Frame → Builder
  | [] => .finished v
  | .items read :: stack => .afterItem (v :: read) stack
  | .members read key :: stack => .afterMember (member key v :: read) stack

/-- Closes the open containers around a value. -/
def close (v : Value) : List Frame → Value
  | [] => v
  | .items read :: stack => close (.array (v :: read).reverse) stack
  | .members read key :: stack => close (.object (member key v :: read).reverse) stack

/-- The tree of a text that breaks off here. -/
def broken : Builder → Value
  | .nextValue stack => close .unreadable stack
  | .firstItem stack => close (.array [.unreadable]) stack
  | .afterItem read stack => close (.array (.unreadable :: read).reverse) stack
  | .firstKey stack => close (.object [("", .unreadable)]) stack
  | .nextKey read stack | .afterMember read stack =>
    close (.object (("", .unreadable) :: read).reverse) stack
  | .nextColon read key stack => close (.object (member key .unreadable :: read).reverse) stack
  | .finished v | .stopped v => v

/-- Takes a token where a value must come. -/
def valueStep (stack : List Frame) : Token → Builder
  | .scalar v => put v stack
  | .arrayOpen => .firstItem stack
  | .objectOpen => .firstKey stack
  | _ => .stopped (broken (.nextValue stack))

/-- Takes a token where a key must come. -/
def keyStep (read : List (String × Value)) (stack : List Frame) : Token → Builder
  | .scalar (.string key) => .nextColon read (some key) stack
  | .scalar .unpaired => .nextColon read none stack
  | _ => .stopped (broken (.nextKey read stack))

/-- Takes one token. -/
def step (b : Builder) (t : Token) : Builder :=
  match b with
  | .nextValue stack => valueStep stack t
  | .firstItem stack =>
    match t with
    | .arrayClose => put (.array []) stack
    | _ => valueStep (.items [] :: stack) t
  | .afterItem read stack =>
    match t with
    | .comma => .nextValue (.items read :: stack)
    | .arrayClose => put (.array read.reverse) stack
    | _ => .stopped b.broken
  | .firstKey stack =>
    match t with
    | .objectClose => put (.object []) stack
    | _ => keyStep [] stack t
  | .nextKey read stack => keyStep read stack t
  | .nextColon read key stack =>
    match t with
    | .colon => .nextValue (.members read key :: stack)
    | _ => .stopped b.broken
  | .afterMember read stack =>
    match t with
    | .comma => .nextKey read stack
    | .objectClose => put (.object read.reverse) stack
    | _ => .stopped b.broken
  | .finished v => .stopped v
  | .stopped v => .stopped v

end Builder

/-- The reader between two characters. -/
structure Reader where
  mode : Mode
  builder : Builder
deriving Inhabited

namespace Reader

/-- The reader before the first character. -/
def start : Reader := ⟨.between, .nextValue []⟩

/-- Takes one character. -/
def step (r : Reader) (c : Char) : Reader :=
  let (tokens, mode) := r.mode.step c
  ⟨mode, tokens.foldl Builder.step r.builder⟩

/-- The builder after the last character. -/
def finish (r : Reader) : Builder := r.mode.finish.foldl Builder.step r.builder

end Reader

/-- What a text was read as. -/
structure Document where
  value : Value
  /-- The text is this one value and nothing else but blanks. -/
  whole : Bool
deriving Repr, Inhabited

/-- What was read when the text ends here. -/
def Builder.document : Builder → Document
  | .finished v => ⟨v, true⟩
  | b => ⟨b.broken, false⟩

/-- Reads a text. -/
def read (text : List Char) : Document := (text.foldl Reader.step Reader.start).finish.document

/-- The value of a text that is JSON as a whole. -/
def parse? (text : String) : Option Value :=
  let doc := read text.toList
  if doc.whole then some doc.value else none

end RelayFleet.Json
