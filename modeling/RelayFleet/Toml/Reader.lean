import RelayFleet.Toml.Number
import RelayFleet.Toml.Quoted
import RelayFleet.Toml.Table

/-!
# Reading a TOML document

A document is read in two steps. `sections?` reads its text into sections: the header of a table and
the entries below it, with the paths as they are written. `Node.ofSections?` puts the sections
together, and refuses what defines the same thing twice. `read?` does both.
-/

namespace RelayFleet.Toml

/-- The number of parts at which a path is refused. -/
def pathLimit : Nat := 80

/-- How deep arrays and inline tables may stand in each other. -/
def nestingLimit : Nat := 79

/-- A character of a key without quotes. -/
def isKeyChar (c : Char) : Bool := c.isAlphanum || c = '_' || c = '-'

/-- One part of a path. -/
def keyPart? (cs : List Char) : Option (String × List Char) :=
  match cs.takeWhile isKeyChar with
  | [] => inlineString? cs
  | name => some (String.ofList name, cs.dropWhile isKeyChar)

/-- The parts of a path after the ones in `seen`, which is last first, with the blanks around them;
`bound` is how many parts there may be. -/
def pathParts? (bound : Nat) (seen : List String) (cs : List Char) :
    Option (Path × List Char) :=
  match bound with
  | 0 => none
  | n + 1 => do
    let (part, cs) ← keyPart? (skipBlanks cs)
    match skipBlanks cs with
    | '.' :: rest => pathParts? n (part :: seen) rest
    | rest => return (⟨seen.reverse, part⟩, rest)

/-- A path with the blanks around it. -/
def path? (cs : List Char) : Option (Path × List Char) := pathParts? (pathLimit - 1) [] cs

/-- The text after the comment at its start, if there is one. -/
def skipComment : List Char → List Char
  | '#' :: rest => rest.dropWhile isTextChar
  | cs => cs

/-- The text without the blanks, line breaks and comments at its start. -/
def skipFiller (inComment : Bool) : List Char → List Char
  | '\n' :: rest => skipFiller false rest
  | '\r' :: '\n' :: rest => skipFiller false rest
  | c :: rest =>
    if inComment then (if isTextChar c then skipFiller true rest else c :: rest)
    else if c = '#' then skipFiller true rest
    else if isBlank c then skipFiller false rest
    else c :: rest
  | [] => []

/-- A reader of a value at the start of a text. -/
abbrev ValueReader := List Char → Option (Value × List Char)

/-- A number or a moment. -/
def number? (cs : List Char) : Option (Value × List Char) :=
  match moment? cs with
  | some (text, rest) => some (.moment text, rest)
  | none =>
    match float? cs with
    | some (literal, rest) => some (.float literal, rest)
    | none => (integer? cs).map fun (n, rest) => (.integer n, rest)

/-- A value without parts. -/
def scalar? : ValueReader
  | '"' :: rest => (string? ('"' :: rest)).map fun (s, rest) => (.string s, rest)
  | '\'' :: rest => (string? ('\'' :: rest)).map fun (s, rest) => (.string s, rest)
  | 't' :: 'r' :: 'u' :: 'e' :: rest => some (.boolean true, rest)
  | 'f' :: 'a' :: 'l' :: 's' :: 'e' :: rest => some (.boolean false, rest)
  | 'i' :: 'n' :: 'f' :: rest => some (.float "inf", rest)
  | 'n' :: 'a' :: 'n' :: rest => some (.float "nan", rest)
  | c :: rest => if c.isDigit ∨ c = '+' ∨ c = '-' then number? (c :: rest) else none
  | [] => none

/-- The items of an array up to its closing bracket, after the ones in `seen`, which is last first.
The length of the text bounds the recursion. -/
def items? (value : ValueReader) (bound : Nat) (seen : List Value) (cs : List Char) :
    Option (Value × List Char) :=
  match bound with
  | 0 => none
  | n + 1 =>
    match skipFiller false cs with
    | ']' :: rest => some (.array seen.reverse, rest)
    | cs => do
      let (v, cs) ← value cs
      match skipFiller false cs with
      | ',' :: rest => items? value n (v :: seen) rest
      | ']' :: rest => return (.array (v :: seen).reverse, rest)
      | _ => none

/-- An entry: a path, an equals sign and a value, without the blanks around the value. -/
def entry? (value : ValueReader) (cs : List Char) : Option (Entry × List Char) := do
  let (path, cs) ← path? cs
  match cs with
  | '=' :: rest =>
    let (v, rest) ← value (skipBlanks rest)
    return (⟨path, v⟩, rest)
  | _ => none

/-- The entries of an inline table up to its closing brace, of which there is at least one, after
the ones in `seen`, which is last first. The length of the text bounds the recursion. -/
def inlineEntries? (value : ValueReader) (bound : Nat) (seen : List Entry) (cs : List Char) :
    Option (List Entry × List Char) :=
  match bound with
  | 0 => none
  | n + 1 => do
    let (e, cs) ← entry? value cs
    match skipBlanks cs with
    | ',' :: rest => inlineEntries? value n (e :: seen) rest
    | '}' :: rest => return ((e :: seen).reverse, rest)
    | _ => none

/-- The entries of an inline table. -/
def inlineTable? (value : ValueReader) (cs : List Char) : Option (Value × List Char) :=
  match skipBlanks cs with
  | '}' :: rest => some (.table [], rest)
  | _ => do
    let (entries, rest) ← inlineEntries? value (cs.length + 1) [] cs
    let node ← Node.ofEntries? entries
    return (node.toValue, rest)

/-- A value in which arrays and inline tables stand at most `depth` deep in each other. -/
def value? : Nat → ValueReader
  | 0, cs => scalar? cs
  | depth + 1, cs =>
    match cs with
    | '[' :: rest => items? (value? depth) (rest.length + 1) [] rest
    | '{' :: rest => inlineTable? (value? depth) rest
    | cs => scalar? cs

/-- The text after the end of a line: blanks, a comment or none, and a line break or the end of the
text. -/
def lineEnd? (cs : List Char) : Option (List Char) :=
  match skipComment (skipBlanks cs) with
  | [] => some []
  | rest => lineBreak? rest

/-- A header, after its first bracket. -/
def header? : List Char → Option (Header × List Char)
  | '[' :: cs => do
    let (path, cs) ← path? cs
    match cs with
    | ']' :: ']' :: rest => return (.item path, rest)
    | _ => none
  | cs => do
    let (path, cs) ← path? cs
    match cs with
    | ']' :: rest => return (.table path, rest)
    | _ => none

/-- The sections of a text: `current` is the one that is being read, its entries last first, and
`done` are the ones before it, last first. The length of the text bounds the recursion. -/
def sectionsFrom? (bound : Nat) (done : List Section) (current : Section) (cs : List Char) :
    Option (List Section) :=
  match bound with
  | 0 => none
  | n + 1 =>
    match skipBlankLines cs with
    | [] => some (current.inOrder :: done).reverse
    | '#' :: rest => do sectionsFrom? n done current (← lineEnd? ('#' :: rest))
    | '[' :: rest => do
      let (header, rest) ← header? rest
      sectionsFrom? n (current.inOrder :: done) ⟨header, []⟩ (← lineEnd? rest)
    | cs => do
      let (e, rest) ← entry? (value? nestingLimit) cs
      sectionsFrom? n done { current with entries := e :: current.entries } (← lineEnd? rest)

/-- The sections of a text, which may begin with a byte order mark. -/
def sections? (cs : List Char) : Option (List Section) :=
  let cs := match cs with
    | '\uFEFF' :: rest => rest
    | cs => cs
  sectionsFrom? (cs.length + 1) [] ⟨.root, []⟩ cs

/-- Reads a document. -/
def read? (text : List Char) : Option Value := do
  let sections ← sections? text
  let root ← Node.ofSections? sections
  return root.toValue

end RelayFleet.Toml
