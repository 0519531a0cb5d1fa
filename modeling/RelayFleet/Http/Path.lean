import RelayFleet.Json.Token

/-!
# Paths of requests

The path of a request divides into segments. A segment that stands for a name is decoded: a percent
sign with two hexadecimal digits is the byte with that code, anything else stands for itself.
-/

namespace RelayFleet.Http

/-- The path of a request target, without what is asked of it. -/
def pathOf (target : List Char) : List Char := target.takeWhile fun c => c != '?' && c != '#'

/-- The segments of a path, which begins with a slash. -/
def segments (path : List Char) : List String :=
  match path with
  | '/' :: rest => (rest.splitOn '/').map String.ofList
  | _ => []

/-- The bytes of a text with percent signs. -/
def percentBytes : List Char → List UInt8
  | '%' :: a :: b :: rest =>
    match Json.hexValue? a, Json.hexValue? b with
    | some high, some low => UInt8.ofNat (high * 16 + low) :: percentBytes rest
    | _, _ => '%'.toUInt8 :: percentBytes (a :: b :: rest)
  | c :: rest => String.utf8EncodeChar c ++ percentBytes rest
  | [] => []

/-- The name that a segment stands for, if its bytes are text. -/
def decodeSegment (segment : String) : Option String :=
  String.fromUTF8? ⟨(percentBytes segment.toList).toArray⟩

end RelayFleet.Http
