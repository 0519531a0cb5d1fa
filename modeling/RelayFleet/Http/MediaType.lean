/-!
# Media types

The media type of a request body: a type and a subtype, then parameters, each behind a semicolon.
`isJson` recognises `application/json` and the types that end in `+json`, in either case and with
any parameters of visible characters.
-/

namespace RelayFleet.Http

/-- The marks that may stand in a token. -/
def tokenMarks : List Char :=
  ['!', '#', '$', '%', '&', '\'', '*', '+', '-', '.', '^', '_', '\x60', '|', '~']

/-- A character of a token. -/
def isTokenChar (c : Char) : Bool := c.isAlphanum || tokenMarks.contains c

/-- Where a reader of parameters stands. -/
inductive ParameterPart where
  /-- In the name, `started` once a character of it was read. -/
  | name (started : Bool)
  | value (started : Bool)
  | quoted (started : Bool)
  | afterQuotes
deriving Repr, DecidableEq, Inhabited

namespace ParameterPart

/-- Reads one character, unless it may not stand here. -/
def next (p : ParameterPart) (c : Char) : Option ParameterPart :=
  match p with
  | name started =>
    if c = ' ' ∧ !started then some (name false)
    else if isTokenChar c then some (name true)
    else if c = '=' ∧ started then some (value false)
    else none
  | value started =>
    if c = '"' ∧ !started then some (quoted false)
    else if isTokenChar c then some (value true)
    else if c = ';' ∧ started then some (name false)
    else none
  | quoted started =>
    if c = '"' ∧ started then some afterQuotes
    else if 0x20 ≤ c.toNat ∧ c.toNat ≠ 0x7F then some (quoted true)
    else none
  | afterQuotes =>
    if c = ';' then some (name false) else if c = ' ' then some afterQuotes else none

/-- Whether the parameters may end here. -/
def mayEnd : ParameterPart → Bool
  | name started => !started
  | value _ => true
  | quoted _ => false
  | afterQuotes => true

end ParameterPart

/-- Whether a text is a list of parameters. -/
def areParameters (cs : List Char) : Bool :=
  match cs.foldlM ParameterPart.next (.name false) with
  | some p => p.mayEnd
  | none => false

/-- The part of a subtype before its last plus sign and the part after it, which is its suffix. A
plus sign at the start divides nothing. -/
def splitSuffix (subtype : List Char) : List Char × Option (List Char) :=
  match subtype with
  | [] => ([], none)
  | first :: rest =>
    if rest.contains '+' then
      let reversed := rest.reverse
      (first :: ((reversed.dropWhile (· != '+')).drop 1).reverse,
        some (reversed.takeWhile (· != '+')).reverse)
    else (subtype, none)

/-- A character that is visible in ASCII, a blank or a tab. -/
def isVisible (c : Char) : Bool := c = '\t' || 0x20 ≤ c.toNat && c.toNat < 0x7F

/-- Whether a media type is one of JSON. A text with anything invisible is no media type, not even
in the value of a parameter. -/
def isJson (mediaType : String) : Bool :=
  let cs := mediaType.toList.map Char.toLower
  let major := cs.takeWhile (· != '/')
  let rest := (cs.dropWhile (· != '/')).drop 1
  let subtype := rest.takeWhile (· != ';')
  let parameters := rest.dropWhile (· != ';')
  let (base, suffix) := splitSuffix subtype
  mediaType.toList.all isVisible && major = "application".toList && subtype.all isTokenChar &&
    (base = "json".toList || suffix = some "json".toList) && areParameters (parameters.drop 1)

end RelayFleet.Http
