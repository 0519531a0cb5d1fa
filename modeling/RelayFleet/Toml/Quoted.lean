import RelayFleet.Json.Token

/-!
# Strings in TOML

The four kinds of strings: basic and literal, each on one line or on several. Each scanner takes the
text after the opening quotes and answers with the string, last character first, and the rest of the
text after the closing quotes. Line breaks inside a string count as one line feed however they are
written.
-/

namespace RelayFleet.Toml

/-- A character that may stand unescaped in a comment: no control character but the tab. -/
def isTextChar (c : Char) : Bool :=
  c = '\t' || (0x20 ≤ c.toNat && c.toNat ≠ 0x7F)

/-- A character that may stand unescaped between double quotes. -/
def isBasicChar (c : Char) : Bool := isTextChar c && c != '"' && c != '\\'

/-- A character that may stand between single quotes. -/
def isLiteralChar (c : Char) : Bool := isTextChar c && c != '\''

/-- The character that a short escape stands for. -/
def shortEscape? (c : Char) : Option Char :=
  match c with
  | 'b' => some '\x08'
  | 't' => some '\t'
  | 'n' => some '\n'
  | 'f' => some '\x0c'
  | 'r' => some '\r'
  | '"' => some '"'
  | '\\' => some '\\'
  | _ => none

/-- The character with the code that hexadecimal digits spell. -/
def codeChar? (digits : List Char) : Option Char := do
  let values ← digits.mapM Json.hexValue?
  let code := values.foldl (fun n d => n * 16 + d) 0
  if code.isValidChar then some (Char.ofNat code) else none

/-- A basic string on one line. -/
def basic (seen : List Char) : List Char → Option (List Char × List Char)
  | '"' :: rest => some (seen, rest)
  | '\\' :: 'u' :: a :: b :: c :: d :: rest => do
    basic ((← codeChar? [a, b, c, d]) :: seen) rest
  | '\\' :: 'U' :: a :: b :: c :: d :: e :: f :: g :: h :: rest => do
    basic ((← codeChar? [a, b, c, d, e, f, g, h]) :: seen) rest
  | '\\' :: c :: rest => do basic ((← shortEscape? c) :: seen) rest
  | c :: rest => if isBasicChar c then basic (c :: seen) rest else none
  | [] => none

/-- A literal string on one line. -/
def literal (seen : List Char) : List Char → Option (List Char × List Char)
  | '\'' :: rest => some (seen, rest)
  | c :: rest => if isLiteralChar c then literal (c :: seen) rest else none
  | [] => none

/-- The text after a line break at its start. -/
def lineBreak? : List Char → Option (List Char)
  | '\n' :: rest => some rest
  | '\r' :: '\n' :: rest => some rest
  | _ => none

/-- A blank of TOML. -/
def isBlank (c : Char) : Bool := c = ' ' || c = '\t'

/-- The text without the blanks at its start. -/
def skipBlanks (cs : List Char) : List Char := cs.dropWhile isBlank

/-- The text without the blanks and line breaks at its start. -/
def skipBlankLines : List Char → List Char
  | ' ' :: rest => skipBlankLines rest
  | '\t' :: rest => skipBlankLines rest
  | '\n' :: rest => skipBlankLines rest
  | '\r' :: '\n' :: rest => skipBlankLines rest
  | rest => rest

/-- A basic string on several lines. Three to five double quotes close it, the first two of five
belonging to the string; a backslash at the end of a line takes the blanks and line breaks after it
away. The length of the text bounds the recursion. -/
def multilineBasic (bound : Nat) (seen : List Char) (cs : List Char) :
    Option (List Char × List Char) :=
  match bound with
  | 0 => none
  | n + 1 =>
    match cs with
    | '"' :: '"' :: '"' :: '"' :: '"' :: rest => some ('"' :: '"' :: seen, rest)
    | '"' :: '"' :: '"' :: '"' :: rest => some ('"' :: seen, rest)
    | '"' :: '"' :: '"' :: rest => some (seen, rest)
    | '"' :: rest => multilineBasic n ('"' :: seen) rest
    | '\n' :: rest => multilineBasic n ('\n' :: seen) rest
    | '\r' :: '\n' :: rest => multilineBasic n ('\n' :: seen) rest
    | '\\' :: 'u' :: a :: b :: c :: d :: rest => do
      multilineBasic n ((← codeChar? [a, b, c, d]) :: seen) rest
    | '\\' :: 'U' :: a :: b :: c :: d :: e :: f :: g :: h :: rest => do
      multilineBasic n ((← codeChar? [a, b, c, d, e, f, g, h]) :: seen) rest
    | '\\' :: rest =>
      match lineBreak? (skipBlanks rest), rest with
      | some next, _ => multilineBasic n seen (skipBlankLines next)
      | none, c :: rest => do multilineBasic n ((← shortEscape? c) :: seen) rest
      | none, [] => none
    | c :: rest => if isBasicChar c then multilineBasic n (c :: seen) rest else none
    | [] => none

/-- A literal string on several lines. Three to five single quotes close it, the first two of five
belonging to the string. -/
def multilineLiteral (seen : List Char) : List Char → Option (List Char × List Char)
  | '\'' :: '\'' :: '\'' :: '\'' :: '\'' :: rest => some ('\'' :: '\'' :: seen, rest)
  | '\'' :: '\'' :: '\'' :: '\'' :: rest => some ('\'' :: seen, rest)
  | '\'' :: '\'' :: '\'' :: rest => some (seen, rest)
  | '\'' :: rest => multilineLiteral ('\'' :: seen) rest
  | '\n' :: rest => multilineLiteral ('\n' :: seen) rest
  | '\r' :: '\n' :: rest => multilineLiteral ('\n' :: seen) rest
  | c :: rest => if isLiteralChar c then multilineLiteral (c :: seen) rest else none
  | [] => none

/-- The text of a scanned string, whose characters are last first. -/
def scanned (r : List Char × List Char) : String × List Char := (String.ofList r.1.reverse, r.2)

/-- A string on one line, at the start of the text. -/
def inlineString? : List Char → Option (String × List Char)
  | '"' :: rest => (basic [] rest).map scanned
  | '\'' :: rest => (literal [] rest).map scanned
  | _ => none

/-- A string of any kind, at the start of the text. A line break right after three opening quotes is
no part of the string. -/
def string? : List Char → Option (String × List Char)
  | '"' :: '"' :: '"' :: rest =>
    (multilineBasic (rest.length + 1) [] ((lineBreak? rest).getD rest)).map scanned
  | '\'' :: '\'' :: '\'' :: rest => (multilineLiteral [] ((lineBreak? rest).getD rest)).map scanned
  | cs => inlineString? cs

end RelayFleet.Toml
