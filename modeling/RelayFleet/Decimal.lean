/-!
# Decimal literals and the range of double precision

A decimal literal stands for `digits * 10 ^ exponent`. `overflows` says whether the nearest double
is infinite, in exact arithmetic: the border lies half a unit above the largest finite double.
-/

namespace RelayFleet

/-- The number `digits * 10 ^ exponent`. -/
structure Decimal where
  digits : Nat
  exponent : Int
deriving Repr, DecidableEq, Inhabited

namespace Decimal

/-- The least number that rounds to infinity in double precision. -/
def doubleLimit : Nat := Nat.pow 2 1024 - Nat.pow 2 970

/-- Whether the number rounds to infinity in double precision. The count of digits decides all but
the numbers near the limit, so that no huge power is computed. -/
def overflows (d : Decimal) : Bool :=
  let size : Int := (Nat.toDigits 10 d.digits).length + d.exponent
  if d.digits = 0 ∨ size < 300 then false
  else if 320 < size then true
  else if 0 ≤ d.exponent then doubleLimit ≤ d.digits * Nat.pow 10 d.exponent.toNat
  else doubleLimit * Nat.pow 10 (-d.exponent).toNat ≤ d.digits

/-- The integer of an exponent's characters: a sign or none, then digits. -/
def exponentValue (cs : List Char) : Int :=
  match cs with
  | '-' :: ds => -(Nat.ofDigitChars 10 ds 0 : Nat)
  | '+' :: ds => Nat.ofDigitChars 10 ds 0
  | ds => Nat.ofDigitChars 10 ds 0

/-- The absolute value of a well-formed literal: a sign or none, digits, a fraction or none, an
exponent or none. -/
def ofLiteral (literal : List Char) : Decimal :=
  let unsigned := literal.dropWhile fun c => c == '+' || c == '-'
  let mantissa := unsigned.takeWhile fun c => c != 'e' && c != 'E'
  let exponent := exponentValue ((unsigned.dropWhile fun c => c != 'e' && c != 'E').drop 1)
  let fraction := (mantissa.dropWhile (· != '.')).drop 1
  ⟨Nat.ofDigitChars 10 (mantissa.filter (· != '.')) 0, exponent - fraction.length⟩

end Decimal

end RelayFleet
