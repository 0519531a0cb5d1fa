import RelayFleet.Json.Value

/-!
# The tokens of a JSON text

The scanner takes one character at a time: `Mode.step` says which tokens a character completes and
in which mode the next one is read. A number is complete only when a character comes that cannot
continue it, so a step may complete two tokens. Nothing is read after a token that is `bad`.
-/

namespace RelayFleet.Json

/-- A token: a value without parts, or a mark. -/
inductive Token where
  | scalar (v : Value)
  | arrayOpen
  | arrayClose
  | objectOpen
  | objectClose
  | comma
  | colon
  /-- Characters that begin no token. -/
  | bad
deriving Repr, Inhabited

/-- The part of a number that was read last. -/
inductive NumberPart where
  | minus
  | zero
  | whole
  | point
  | fraction
  | exponentMark
  | exponentSign
  | exponent
deriving Repr, DecidableEq, Inhabited

namespace NumberPart

/-- Whether a number may end after this part. -/
def complete : NumberPart → Bool
  | .zero | .whole | .fraction | .exponent => true
  | _ => false

/-- The part that a character continues the number with, if it does. -/
def next (p : NumberPart) (c : Char) : Option NumberPart :=
  match p with
  | .minus => if c = '0' then some .zero else if c.isDigit then some .whole else none
  | .zero =>
    if c = '.' then some .point else if c = 'e' ∨ c = 'E' then some .exponentMark else none
  | .whole =>
    if c.isDigit then some .whole else if c = '.' then some .point
    else if c = 'e' ∨ c = 'E' then some .exponentMark else none
  | .point => if c.isDigit then some .fraction else none
  | .fraction =>
    if c.isDigit then some .fraction else if c = 'e' ∨ c = 'E' then some .exponentMark else none
  | .exponentMark =>
    if c.isDigit then some .exponent else if c = '+' ∨ c = '-' then some .exponentSign else none
  | .exponentSign | .exponent => if c.isDigit then some .exponent else none

end NumberPart

/-- The value of the characters of a number. -/
def numberValue (literal : List Char) : Value :=
  if literal.all Char.isDigit then .natural (Nat.ofDigitChars 10 literal 0)
  else .decimal (String.ofList literal)

/-- The number that a hexadecimal digit of either case stands for. -/
def hexValue? (c : Char) : Option Nat :=
  if c.isDigit then some (c.toNat - '0'.toNat)
  else if 'a' ≤ c ∧ c ≤ 'f' then some (c.toNat - 'a'.toNat + 10)
  else if 'A' ≤ c ∧ c ≤ 'F' then some (c.toNat - 'A'.toNat + 10)
  else none

/-- Whether a code is the first half of a surrogate pair. -/
def isHighSurrogate (code : Nat) : Bool := 0xD800 ≤ code && code < 0xDC00

/-- Whether a code is the second half of a surrogate pair. -/
def isLowSurrogate (code : Nat) : Bool := 0xDC00 ≤ code && code < 0xE000

/-- The character that a surrogate pair stands for. -/
def pairedChar (high low : Nat) : Char :=
  Char.ofNat (0x10000 + (high - 0xD800) * 0x400 + (low - 0xDC00))

/-- Where the scanner stands. The characters of a string or number that were read so far are kept
last first; a string keeps `none` once it is known to be no text. -/
inductive Mode where
  | between
  /-- Inside `null`, `true` or `false`: the characters still to come. -/
  | word (expected : List Char) (v : Value)
  | number (part : NumberPart) (seen : List Char)
  | string (seen : Option (List Char))
  | escaped (seen : Option (List Char))
  /-- Inside the four digits of a `u` escape, after `high` if that is the first half of a pair. -/
  | hex (seen : Option (List Char)) (high : Option Nat) (count code : Nat)
  /-- After the escape of the first half of a pair. -/
  | afterHigh (seen : Option (List Char)) (high : Nat)
  /-- After the first half of a pair and a backslash. -/
  | afterHighEscaped (seen : Option (List Char)) (high : Nat)
  | broken
deriving Repr, Inhabited

namespace Mode

/-- The token of a finished string. -/
def stringToken : Option (List Char) → Token
  | some seen => .scalar (.string (String.ofList seen.reverse))
  | none => .scalar .unpaired

/-- Reads a character between two tokens. -/
def startStep (c : Char) : List Token × Mode :=
  if c = ' ' ∨ c = '\t' ∨ c = '\n' ∨ c = '\r' then ([], .between)
  else if c = '[' then ([.arrayOpen], .between)
  else if c = ']' then ([.arrayClose], .between)
  else if c = '{' then ([.objectOpen], .between)
  else if c = '}' then ([.objectClose], .between)
  else if c = ',' then ([.comma], .between)
  else if c = ':' then ([.colon], .between)
  else if c = '"' then ([], .string (some []))
  else if c = 't' then ([], .word ['r', 'u', 'e'] (.bool true))
  else if c = 'f' then ([], .word ['a', 'l', 's', 'e'] (.bool false))
  else if c = 'n' then ([], .word ['u', 'l', 'l'] .null)
  else if c = '-' then ([], .number .minus ['-'])
  else if c = '0' then ([], .number .zero ['0'])
  else if c.isDigit then ([], .number .whole [c])
  else ([.bad], .broken)

/-- Reads a character of a string. -/
def stringStep (seen : Option (List Char)) (c : Char) : List Token × Mode :=
  if c = '"' then ([stringToken seen], .between)
  else if c = '\\' then ([], .escaped seen)
  else if c.toNat < 0x20 then ([.bad], .broken)
  else ([], .string (seen.map (c :: ·)))

/-- The character that a short escape stands for. -/
def shortEscape? (c : Char) : Option Char :=
  if c = '"' ∨ c = '\\' ∨ c = '/' then some c
  else if c = 'b' then some '\x08'
  else if c = 'f' then some '\x0c'
  else if c = 'n' then some '\n'
  else if c = 'r' then some '\r'
  else if c = 't' then some '\t'
  else none

/-- Reads the character after a backslash. -/
def escapedStep (seen : Option (List Char)) (c : Char) : List Token × Mode :=
  if c = 'u' then ([], .hex seen none 0 0)
  else match shortEscape? c with
    | some e => ([], .string (seen.map (e :: ·)))
    | none => ([.bad], .broken)

/-- The mode after the fourth digit of a `u` escape. -/
def afterCode (seen : Option (List Char)) (high : Option Nat) (code : Nat) : Mode :=
  match high with
  | none =>
    if isHighSurrogate code then .afterHigh seen code
    else if isLowSurrogate code then .string none
    else .string (seen.map (Char.ofNat code :: ·))
  | some h =>
    if isLowSurrogate code then .string (seen.map (pairedChar h code :: ·)) else .string none

/-- Reads one character: the tokens it completes and the mode after it. -/
def step (m : Mode) (c : Char) : List Token × Mode :=
  match m with
  | .between => startStep c
  | .word [] v => ([.scalar v, .bad], .broken)
  | .word (x :: xs) v =>
    if c = x then (if xs.isEmpty then ([.scalar v], .between) else ([], .word xs v))
    else ([.bad], .broken)
  | .number part seen =>
    match part.next c with
    | some p => ([], .number p (c :: seen))
    | none =>
      if part.complete && !(part = .zero && c.isDigit) then
        let (tokens, m') := startStep c
        (.scalar (numberValue seen.reverse) :: tokens, m')
      else ([.bad], .broken)
  | .string seen => stringStep seen c
  | .escaped seen => escapedStep seen c
  | .hex seen high count code =>
    match hexValue? c with
    | some d =>
      if count = 3 then ([], afterCode seen high (code * 16 + d))
      else ([], .hex seen high (count + 1) (code * 16 + d))
    | none => ([.bad], .broken)
  | .afterHigh seen high =>
    if c = '\\' then ([], .afterHighEscaped seen high) else stringStep none c
  | .afterHighEscaped seen high =>
    if c = 'u' then ([], .hex seen (some high) 0 0) else escapedStep none c
  | .broken => ([], .broken)

/-- The tokens that the end of the text completes. -/
def finish : Mode → List Token
  | .between | .broken => []
  | .number part seen =>
    if part.complete then [.scalar (numberValue seen.reverse)] else [.bad]
  | _ => [.bad]

end Mode

end RelayFleet.Json
