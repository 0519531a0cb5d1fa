import RelayFleet.Decimal
import RelayFleet.Json.Token
import RelayFleet.Toml.Value

/-!
# Numbers and moments in TOML

Integers have 64 bits and may be written in four bases, with underscores between digits. Floats keep
their literal; one that double precision cannot hold is refused. A moment is a date, a time of day,
or both, and must exist in the calendar. Each scanner answers with what it found at the start of the
text and with the rest of the text.
-/

namespace RelayFleet.Toml

/-- Digits of a kind, each but the first behind an underscore or not. -/
def digitRun (isDigit : Char → Bool) : List Char → List Char × List Char
  | '_' :: c :: rest =>
    if isDigit c then
      let (ds, rest) := digitRun isDigit rest
      (c :: ds, rest)
    else ([], '_' :: c :: rest)
  | c :: rest =>
    if isDigit c then
      let (ds, rest) := digitRun isDigit rest
      (c :: ds, rest)
    else ([], c :: rest)
  | [] => ([], [])

/-- At least one digit of a kind. -/
def digits? (isDigit : Char → Bool) : List Char → Option (List Char × List Char)
  | c :: rest =>
    if isDigit c then
      let (ds, rest) := digitRun isDigit rest
      some (c :: ds, rest)
    else none
  | [] => none

/-- A sign or none. -/
def sign : List Char → List Char × List Char
  | '+' :: rest => (['+'], rest)
  | '-' :: rest => (['-'], rest)
  | cs => ([], cs)

/-- A decimal integer with its sign: no zero stands before another digit. -/
def wholePart? (cs : List Char) : Option (List Char × List Char) :=
  let (s, cs) := sign cs
  match cs with
  | '0' :: rest => some (s ++ ['0'], rest)
  | _ => (digits? Char.isDigit cs).map fun (ds, rest) => (s ++ ds, rest)

/-- The integer of 64 bits with this sign and absolute value. -/
def integerOf? (negative : Bool) (n : Nat) : Option Int :=
  if negative then (if n ≤ integerLimit then some (-(n : Int)) else none)
  else if n < integerLimit then some n else none

/-- The number that digits spell in a base. -/
def digitsValue (base : Nat) (ds : List Char) : Nat :=
  ds.foldl (fun n d => n * base + (Json.hexValue? d).getD 0) 0

/-- A digit below eight. -/
def isOctDigit (c : Char) : Bool := '0' ≤ c && c ≤ '7'

/-- A digit of any kind, up to `f` in either case. -/
def isHexDigit (c : Char) : Bool := (Json.hexValue? c).isSome

/-- An integer. -/
def integer? (cs : List Char) : Option (Int × List Char) :=
  match cs with
  | '0' :: 'x' :: rest => based 16 isHexDigit rest
  | '0' :: 'o' :: rest => based 8 isOctDigit rest
  | '0' :: 'b' :: rest => based 2 (fun c => c = '0' || c = '1') rest
  | _ => do
    let (ds, rest) ← wholePart? cs
    let absolute := digitsValue 10 (sign ds).2
    return (← integerOf? (ds.head? == some '-') absolute, rest)
where
  /-- An integer after the mark of its base. -/
  based (base : Nat) (isDigit : Char → Bool) (cs : List Char) : Option (Int × List Char) := do
    let (ds, rest) ← digits? isDigit cs
    return (← integerOf? false (digitsValue base ds), rest)

/-- A fraction, with its point. -/
def fraction? : List Char → Option (List Char × List Char)
  | '.' :: rest => (digits? Char.isDigit rest).map fun (ds, rest) => ('.' :: ds, rest)
  | _ => none

/-- An exponent, with its mark. -/
def exponent? : List Char → Option (List Char × List Char)
  | c :: rest =>
    if c = 'e' ∨ c = 'E' then
      let (s, rest) := sign rest
      (digits? Char.isDigit rest).map fun (ds, rest) => ('e' :: s ++ ds, rest)
    else none
  | [] => none

/-- A float: an integer with a fraction, an exponent or both, or a word for infinity or no number,
with a sign or none. Only a negative number may lie beyond double precision. -/
def float? (cs : List Char) : Option (String × List Char) :=
  match (sign cs).2 with
  | 'i' :: 'n' :: 'f' :: rest => some (String.ofList ((sign cs).1 ++ ['i', 'n', 'f']), rest)
  | 'n' :: 'a' :: 'n' :: rest => some (String.ofList ((sign cs).1 ++ ['n', 'a', 'n']), rest)
  | _ => do
    let (whole, rest) ← wholePart? cs
    let (tail, rest) ← match fraction? rest with
      | some (f, rest) => some ((exponent? rest).elim (f, rest) fun (e, rest) => (f ++ e, rest))
      | none => exponent? rest
    let literal := whole ++ tail
    if whole.head? != some '-' && (Decimal.ofLiteral literal).overflows then none
    else some (String.ofList literal, rest)

/-- The number of exactly `count` digits. -/
def fixed? (count : Nat) (cs : List Char) : Option (Nat × List Char) :=
  let ds := cs.take count
  if ds.length = count ∧ ds.all Char.isDigit then some (digitsValue 10 ds, cs.drop count) else none

/-- The number of exactly two digits, if it lies between two others. -/
def twoDigits? (low high : Nat) (cs : List Char) : Option (Nat × List Char) := do
  let (n, rest) ← fixed? 2 cs
  if low ≤ n ∧ n ≤ high then some (n, rest) else none

/-- The text after a character at its start. -/
def expect? (c : Char) : List Char → Option (List Char)
  | d :: rest => if d = c then some rest else none
  | [] => none

/-- The number of days of a month. -/
def daysIn (year month : Nat) : Nat :=
  if month = 2 then (if year % 4 = 0 ∧ (year % 100 ≠ 0 ∨ year % 400 = 0) then 29 else 28)
  else if month = 4 ∨ month = 6 ∨ month = 9 ∨ month = 11 then 30
  else 31

/-- The text after a date at its start. -/
def afterDate? (cs : List Char) : Option (List Char) := do
  let (year, cs) ← fixed? 4 cs
  let (month, cs) ← twoDigits? 1 12 (← expect? '-' cs)
  let (_, cs) ← twoDigits? 1 (daysIn year month) (← expect? '-' cs)
  return cs

/-- The text after a time of day at its start. -/
def afterTime? (cs : List Char) : Option (List Char) := do
  let (_, cs) ← twoDigits? 0 23 cs
  let (_, cs) ← twoDigits? 0 59 (← expect? ':' cs)
  let (_, cs) ← twoDigits? 0 60 (← expect? ':' cs)
  match cs with
  | '.' :: c :: rest => if c.isDigit then some (rest.dropWhile Char.isDigit) else some cs
  | _ => some cs

/-- The text after an offset from universal time at its start. -/
def afterOffset? (cs : List Char) : Option (List Char) :=
  match cs with
  | 'Z' :: rest | 'z' :: rest => some rest
  | '+' :: rest | '-' :: rest => do
    let (_, rest) ← twoDigits? 0 23 rest
    let (_, rest) ← twoDigits? 0 59 (← expect? ':' rest)
    return rest
  | _ => none

/-- The text after a moment at its start: a date, a time of day, or a date with a time of day and an
offset or none. -/
def afterMoment? (cs : List Char) : Option (List Char) :=
  match afterDate? cs with
  | some rest =>
    match rest with
    | c :: next =>
      if c = 'T' ∨ c = 't' ∨ c = ' ' then
        match afterTime? next with
        | some rest => some ((afterOffset? rest).getD rest)
        | none => some rest
      else some rest
    | [] => some rest
  | none => afterTime? cs

/-- A moment, as it is written. -/
def moment? (cs : List Char) : Option (String × List Char) :=
  (afterMoment? cs).map fun rest => (String.ofList (cs.take (cs.length - rest.length)), rest)

end RelayFleet.Toml
