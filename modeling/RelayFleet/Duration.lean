/-!
# Durations

A span of time, exact to the nanosecond. Its text counts in the largest unit that it holds once, the
rest being a fraction of that unit without zeros at its end.
-/

namespace RelayFleet

/-- A span of time. -/
structure Duration where
  nanos : Nat
deriving Repr, DecidableEq, Inhabited

namespace Duration

/-- A count of microseconds. -/
def ofMicros (n : Nat) : Duration := ⟨n * 1000⟩

/-- A count of milliseconds. -/
def ofMillis (n : Nat) : Duration := ⟨n * 1000000⟩

/-- A count of seconds. -/
def ofSecs (n : Nat) : Duration := ⟨n * 1000000000⟩

/-- The whole milliseconds. -/
def millis (d : Duration) : Nat := d.nanos / 1000000

/-- The milliseconds that a timer needs, which never fires early. -/
def millisUp (d : Duration) : Nat := (d.nanos + 999999) / 1000000

/-- A list without the zeros at its end. -/
def dropZeros (digits : List Char) : List Char := (digits.reverse.dropWhile (· == '0')).reverse

/-- The quotient of `n` by `10 ^ places`, written with a fraction where there is one. -/
def fractionText (places n : Nat) : String :=
  let unit := Nat.pow 10 places
  let digits := Nat.toDigits 10 (n % unit)
  let fraction := dropZeros (List.replicate (places - digits.length) '0' ++ digits)
  let whole := toString (n / unit)
  if fraction.isEmpty then whole else whole ++ "." ++ String.ofList fraction

/-- The text of a duration. -/
def text (d : Duration) : String :=
  if d.nanos < 1000 then toString d.nanos ++ "ns"
  else if d.nanos < 1000000 then fractionText 3 d.nanos ++ "µs"
  else if d.nanos < 1000000000 then fractionText 6 d.nanos ++ "ms"
  else fractionText 9 d.nanos ++ "s"

end Duration

end RelayFleet
