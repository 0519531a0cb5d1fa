import RelayFleet.Toml.Quoted

/-!
# Writing TOML

A string is written in the plainest of the four forms that can hold it: on one line between double
quotes, on one line between single quotes, then on several lines; where no form without escapes is
left, control characters, backslashes and quotes are escaped. `stringText` makes the choice.
-/

namespace RelayFleet.Toml

/-- A control character that no form without escapes can hold. -/
def isControl (c : Char) : Bool :=
  (c.toNat < 0x20 && c != '\t' && c != '\n') || c.toNat = 0x7F

/-- Whether a character stands `run` times in a row somewhere; `seen` counts it up to here. -/
def hasRun (run : Nat) (c : Char) (seen : Nat) : List Char → Bool
  | [] => false
  | d :: rest =>
    if d = c then (seen + 1 = run) || hasRun run c (seen + 1) rest else hasRun run c 0 rest

/-- An upper-case hexadecimal digit. -/
def upperHexDigit (n : Nat) : Char := (Nat.digitChar n).toUpper

/-- The escape of a character that is neither a quote nor a line feed, if it has one. -/
def escape? (c : Char) : Option (List Char) :=
  if c = '\\' then some ['\\', '\\']
  else if c = '\x08' then some ['\\', 'b']
  else if c = '\t' then some ['\\', 't']
  else if c = '\x0c' then some ['\\', 'f']
  else if c = '\r' then some ['\\', 'r']
  else if isControl c then
    some ['\\', 'u', '0', '0', upperHexDigit (c.toNat / 16), upperHexDigit (c.toNat % 16)]
  else none

/-- How a character stands in a basic string on one line. -/
def basicEscape (c : Char) : List Char :=
  if c = '"' then ['\\', '"']
  else if c = '\n' then ['\\', 'n']
  else (escape? c).getD [c]

/-- The text between three double quotes: of the double quotes in a row every third is escaped;
`quotes` counts those since the last escape. -/
def multilineText (quotes : Nat) : List Char → List Char
  | [] => []
  | c :: rest =>
    if c = '"' then
      if quotes = 2 then '\\' :: '"' :: multilineText 0 rest
      else '"' :: multilineText (quotes + 1) rest
    else (escape? c).getD [c] ++ multilineText 0 rest

/-- A line feed where the string has one; it keeps the string off the line of the opening quotes. -/
def opening (cs : List Char) : List Char := if cs.contains '\n' then ['\n'] else []

/-- A string. -/
def stringText (s : String) : List Char :=
  let cs := s.toList
  let control := cs.any isControl
  let lines := cs.contains '\n'
  if !control && !cs.contains '\\' && !cs.contains '"' && !lines then
    '"' :: cs.flatMap basicEscape ++ ['"']
  else if !control && !cs.contains '\'' && !lines then
    '\'' :: cs ++ ['\'']
  else if !control && !cs.contains '\\' && !hasRun 3 '"' 0 cs then
    ['"', '"', '"'] ++ opening cs ++ multilineText 0 cs ++ ['"', '"', '"']
  else if !control && !hasRun 3 '\'' 0 cs then
    ['\'', '\'', '\''] ++ opening cs ++ cs ++ ['\'', '\'', '\'']
  else if lines then
    ['"', '"', '"'] ++ opening cs ++ multilineText 0 cs ++ ['"', '"', '"']
  else
    '"' :: cs.flatMap basicEscape ++ ['"']

/-- An entry on a line of its own. -/
def line (key : String) (text : List Char) : List Char :=
  key.toList ++ [' ', '=', ' '] ++ text ++ ['\n']

/-- An entry with a string. -/
def stringLine (key : String) (s : String) : List Char := line key (stringText s)

/-- An entry with a number. -/
def naturalLine (key : String) (n : Nat) : List Char := line key (Nat.toDigits 10 n)

/-- An entry with `true` or `false`. -/
def booleanLine (key : String) (b : Bool) : List Char :=
  line key (if b then ['t', 'r', 'u', 'e'] else ['f', 'a', 'l', 's', 'e'])

/-- An entry with a string, if there is one. -/
def optionalLine (key : String) : Option String → List Char
  | some s => stringLine key s
  | none => []

end RelayFleet.Toml
